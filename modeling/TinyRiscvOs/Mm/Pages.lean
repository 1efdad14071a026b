import TinyRiscvOs.Mm.BuddyInit

/-!
# The allocator as its page-wise callers see it

`alloc_page` and `kalloc` hand out single pages.  The one larger request of
the kernel is `alloc_pages(3)` of the block device driver, whose pages are
never released.  The first pages of such blocks are collected in a set; every
other counted page is a block of its own, and each operation is described by
what it does to the counts.
-/

namespace TinyRiscvOs.Mm.Buddy

open TinyRiscvOs.Lib.Dyadic

/-- An allocator over `2 ^ top` pages whose larger blocks start at the pages of `multi`. -/
def Pages (top : Nat) (multi : Set Nat) (buddy : Buddy) : Prop :=
  ∃ live, Inv top buddy live ∧
    (∀ block ∈ live, block.height = 0 ∨ block.first ∈ multi) ∧
    ∀ pfn ∈ multi, 0 < buddy.refCnt pfn

/-- A page as a block. -/
def page (pfn : Nat) : Block :=
  ⟨0, pfn⟩

@[simp]
theorem page_first (pfn : Nat) : (page pfn).first = pfn := by
  simp [page, Block.first]

theorem mem_page {pfn cell : Nat} : cell ∈ page pfn ↔ cell = pfn := by
  simp only [page, Block.mem_def, Nat.pow_zero, Nat.div_one]

theorem inTree_page {top pfn : Nat} : InTree top (page pfn) ↔ pfn < 2 ^ top := by
  simp [InTree, page]

/-- A free page is not counted. -/
theorem refCnt_of_free {top : Nat} {buddy : Buddy} {live : List Block}
    (inv : Inv top buddy live) {pfn : Nat} (free : FreePage live pfn) :
    buddy.refCnt pfn = 0 := by
  by_contra counted
  obtain ⟨block, member, rfl⟩ := (inv.counted pfn).1 (Nat.pos_of_ne_zero counted)
  exact free block member block.first_mem

/-- A page outside all blocks, as the bitmap shows it. -/
def Unused (top : Nat) (buddy : Buddy) (pfn : Nat) : Prop :=
  ∀ node, InTree top node → pfn ∈ node → 0 < buddy.bitmap (slot top node)

instance (top : Nat) (buddy : Buddy) : DecidablePred (Unused top buddy) :=
  fun pfn => decidable_of_iff
    (∀ height < top + 1, pfn / 2 ^ height < 2 ^ (top - height) →
      0 < buddy.bitmap (slot top ⟨height, pfn / 2 ^ height⟩)) <| by
    constructor
    · rintro positive ⟨height, offset⟩ ⟨low, small⟩ inside
      rw [Block.mem_def] at inside
      dsimp only at low small inside
      rw [← inside] at small ⊢
      exact positive height (Nat.lt_succ_of_le low) small
    · exact fun unused height low small =>
        unused _ ⟨Nat.le_of_lt_succ low, small⟩ rfl

theorem unused_iff {top : Nat} {buddy : Buddy} {live : List Block}
    (inv : Inv top buddy live) {pfn : Nat} :
    Unused top buddy pfn ↔ FreePage live pfn := by
  constructor
  · intro unused block member inside
    have positive := unused block (inv.tree.inTree block member) inside
    exact absurd (inv.tree.live_zero member) positive.ne'
  · intro free node inTree inside
    rw [inv.tree.exact node inTree,
      nodeValue_exact (not_strictlyInside_of_free inside free)]
    refine Nat.pos_of_ne_zero fun empty => ?_
    exact (longest_eq_zero_iff _ _).1 empty pfn inside free

namespace Pages

variable {top : Nat} {multi : Set Nat} {buddy : Buddy}

theorem size_eq (pages : Pages top multi buddy) : buddy.size = 2 ^ top := by
  obtain ⟨_, inv, -⟩ := pages
  exact inv.size_eq

theorem word (pages : Pages top multi buddy) (pfn : Nat) :
    buddy.refCnt pfn < wordModulus := by
  obtain ⟨_, inv, -⟩ := pages
  exact inv.word pfn

/-- Counted pages are pages of the memory. -/
theorem lt_of_counted (pages : Pages top multi buddy) {pfn : Nat}
    (counted : 0 < buddy.refCnt pfn) : pfn < 2 ^ top := by
  obtain ⟨live, inv, -⟩ := pages
  obtain ⟨block, member, rfl⟩ := (inv.counted pfn).1 counted
  exact (inv.tree.inTree block member).lt_of_mem block.first_mem

/-- Counted pages are not unused. -/
theorem not_unused (pages : Pages top multi buddy) {pfn : Nat}
    (counted : 0 < buddy.refCnt pfn) : ¬ Unused top buddy pfn := by
  obtain ⟨live, inv, -⟩ := pages
  obtain ⟨block, member, rfl⟩ := (inv.counted pfn).1 counted
  exact fun unused => (unused_iff inv).1 unused block member block.first_mem

/-! ## Operations -/

theorem alloc_fails (empty : buddy.bitmap 0 < 1) : buddy.alloc 1 = (0, buddy) :=
  alloc_of_lt empty

/-- `buddy_alloc(1)` hands out a page that nobody counted. -/
theorem alloc (pages : Pages top multi buddy) (succeeds : 1 ≤ buddy.bitmap 0) :
    (buddy.alloc 1).1 < 2 ^ top ∧
      buddy.refCnt (buddy.alloc 1).1 = 0 ∧
      (buddy.alloc 1).2.refCnt =
        Function.update buddy.refCnt (buddy.alloc 1).1 1 ∧
      Pages top multi (buddy.alloc 1).2 := by
  obtain ⟨live, inv, singles, counted⟩ := pages
  obtain ⟨pfn, inTree, free, -, result, counts, after⟩ :=
    alloc_spec inv (m := 0) requestSize_one succeeds
  have first : Block.first ⟨0, pfn⟩ = pfn := page_first pfn
  rw [first] at result counts
  have unused : buddy.refCnt pfn = 0 :=
    refCnt_of_free inv (free pfn (mem_page.2 rfl))
  rw [result]
  refine ⟨inTree_page.1 inTree, unused, counts, page pfn :: live, after, ?_, ?_⟩
  · intro block member
    rcases List.mem_cons.1 member with rfl | old
    · exact Or.inl rfl
    · exact singles block old
  · intro other member
    rw [counts, Function.update_apply]
    split
    · exact Nat.one_pos
    · exact counted other member

/-- `buddy_alloc(1)` takes one of the unused pages. -/
theorem unused_alloc (pages : Pages top multi buddy)
    (succeeds : 1 ≤ buddy.bitmap 0) :
    Unused top buddy (buddy.alloc 1).1 ∧
      ∀ pfn, Unused top (buddy.alloc 1).2 pfn ↔
        Unused top buddy pfn ∧ pfn ≠ (buddy.alloc 1).1 := by
  obtain ⟨live, inv, -⟩ := pages
  obtain ⟨pfn, -, free, -, result, -, after⟩ :=
    alloc_spec inv (m := 0) requestSize_one succeeds
  have first : Block.first ⟨0, pfn⟩ = pfn := page_first pfn
  rw [first] at result
  rw [result]
  refine ⟨(unused_iff inv).2 (free pfn (mem_page.2 rfl)), fun other => ?_⟩
  rw [unused_iff after, unused_iff inv]
  constructor
  · refine fun apart => ⟨fun block member =>
      apart block (List.mem_cons_of_mem _ member), ?_⟩
    rintro rfl
    exact apart (page other) List.mem_cons_self (mem_page.2 rfl)
  · rintro ⟨apart, different⟩ block member
    rcases List.mem_cons.1 member with rfl | old
    · exact fun inside => different (mem_page.1 inside)
    · exact apart block old

/-- `buddy_alloc(3)` hands out a block whose first page joins the larger ones. -/
theorem allocThree (pages : Pages top multi buddy)
    (succeeds : 4 ≤ buddy.bitmap 0) :
    (buddy.alloc 3).1 < 2 ^ top ∧
      buddy.refCnt (buddy.alloc 3).1 = 0 ∧
      (buddy.alloc 3).2.refCnt =
        Function.update buddy.refCnt (buddy.alloc 3).1 1 ∧
      Pages top (insert (buddy.alloc 3).1 multi) (buddy.alloc 3).2 := by
  obtain ⟨live, inv, singles, counted⟩ := pages
  have rounded : requestSize 3 = 2 ^ 2 := by decide
  obtain ⟨offset, inTree, free, -, result, counts, after⟩ :=
    alloc_spec inv rounded succeeds
  have first := Block.first_mem ⟨2, offset⟩
  rw [result]
  refine ⟨inTree.lt_of_mem first, refCnt_of_free inv (free _ first), counts,
    ⟨2, offset⟩ :: live, after, ?_, ?_⟩
  · intro block member
    rcases List.mem_cons.1 member with rfl | old
    · exact Or.inr (Set.mem_insert _ _)
    · exact (singles block old).imp id (Set.mem_insert_of_mem _)
  · intro other member
    rw [counts, Function.update_apply]
    split
    · exact Nat.one_pos
    · rename_i different
      exact counted other (Set.mem_of_mem_insert_of_ne member different)

/-- `get_page` on a counted page whose count does not wrap. -/
theorem getPage (pages : Pages top multi buddy) {pfn : Nat}
    (counted : 0 < buddy.refCnt pfn)
    (noWrap : buddy.refCnt pfn + 1 < wordModulus) :
    (buddy.getPage pfn).1 = 0 ∧
      (buddy.getPage pfn).2.refCnt =
        Function.update buddy.refCnt pfn (buddy.refCnt pfn + 1) ∧
      Pages top multi (buddy.getPage pfn).2 := by
  obtain ⟨live, inv, singles, multiCounted⟩ := pages
  obtain ⟨outcome, after⟩ := getPage_spec inv counted noWrap
  have counts : (buddy.getPage pfn).2.refCnt =
      Function.update buddy.refCnt pfn (buddy.refCnt pfn + 1) := by
    rw [outcome]
  refine ⟨by rw [outcome], counts, live, after, singles, ?_⟩
  intro other member
  rw [counts, Function.update_apply]
  split
  · exact Nat.succ_pos _
  · exact multiCounted other member

/-- `put_page` on a counted single page; the last reference frees it. -/
theorem putPage (pages : Pages top multi buddy) {pfn : Nat}
    (counted : 0 < buddy.refCnt pfn) (single : pfn ∉ multi) :
    (buddy.putPage pfn).refCnt =
        Function.update buddy.refCnt pfn (buddy.refCnt pfn - 1) ∧
      Pages top multi (buddy.putPage pfn) := by
  obtain ⟨live, inv, singles, multiCounted⟩ := pages
  have still (counts : (buddy.putPage pfn).refCnt =
      Function.update buddy.refCnt pfn (buddy.refCnt pfn - 1)) :
      ∀ other ∈ multi, 0 < (buddy.putPage pfn).refCnt other := by
    intro other member
    have different : other ≠ pfn := fun same => single (same ▸ member)
    rw [counts, Function.update_of_ne different]
    exact multiCounted other member
  by_cases shared : 1 < buddy.refCnt pfn
  · obtain ⟨-, counts, after⟩ := pageRefDec_shared inv shared
    exact ⟨counts, live, after, singles, still counts⟩
  · have last : buddy.refCnt pfn = 1 := by omega
    obtain ⟨block, member, rfl⟩ := (inv.counted pfn).1 counted
    obtain ⟨counts, after⟩ := pageRefDec_last inv member last
    have counts : (buddy.putPage block.first).refCnt =
        Function.update buddy.refCnt block.first
          (buddy.refCnt block.first - 1) := by
      rw [last]
      exact counts
    refine ⟨counts, live.erase block, after, ?_, still counts⟩
    exact fun other inside => singles other (List.mem_of_mem_erase inside)

/-- A page whose last reference was put is free. -/
theorem putPage_unused (pages : Pages top multi buddy) {pfn : Nat}
    (last : buddy.refCnt pfn = 1) : Unused top (buddy.putPage pfn) pfn := by
  obtain ⟨live, inv, -⟩ := pages
  obtain ⟨block, member, rfl⟩ := (inv.counted pfn).1 (by omega)
  obtain ⟨counts, after⟩ := pageRefDec_last inv member last
  have zero : (buddy.putPage block.first).refCnt block.first = 0 := by
    rw [Buddy.putPage, counts, Function.update_self]
  refine (unused_iff after).2 fun other inside contains => ?_
  have same := inv.tree.eq_of_mem (List.mem_of_mem_erase inside) member contains
    block.first_mem
  have counted := (after.counted block.first).2 ⟨other, inside, by rw [same]⟩
  rw [Buddy.putPage] at zero
  omega

/-! ## The allocator after `buddy_init` -/

/-- The pages below the first free one are counted once, the others not at all. -/
theorem reserve {pages : Nat} (small : top < 63) (within : pages ≤ 2 ^ top) :
    Pages top ∅ (Buddy.reserve pages (Buddy.fresh (2 ^ top))) ∧
      ∀ pfn, (Buddy.reserve pages (Buddy.fresh (2 ^ top))).refCnt pfn =
        if pfn < pages then 1 else 0 := by
  obtain ⟨run, counts⟩ := World.reserve_run small within
  obtain ⟨⟨live, recorded, inv⟩, -⟩ := World.run_inv small run
  refine ⟨⟨live, inv, ?_, by simp⟩, counts⟩
  intro block isLive
  have member : World.ofBlock block ∈ World.reserved pages := by
    have recorded : World.reserved pages = live.map World.ofBlock := recorded
    rw [recorded]
    exact List.mem_map_of_mem isLive
  have single : 2 ^ block.height = 1 := (World.mem_reserved.1 member).2
  exact Or.inl ((Nat.pow_eq_one.1 single).resolve_left (by decide))

end Pages

end TinyRiscvOs.Mm.Buddy
