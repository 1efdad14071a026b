import TinyRiscvOs.Mm.BuddyRelease
import TinyRiscvOs.Mm.Pages

/-!
# `page_ref_dec` on a page it must not free

`page_ref_dec` calls `buddy_free` for every page whose count is zero, and the
first loop of `buddy_free` looks for the block of the page by climbing to the
first zero entry.  A page in the middle of a live block leads it to that block,
which it releases under its owner; a page of no block leads it past the root.
-/

namespace TinyRiscvOs.Mm

open TinyRiscvOs.Lib
open TinyRiscvOs.Lib.Dyadic

namespace Buddy

variable {top : Nat} {buddy : Buddy} {live : List Block}

/-! ## What further allocations can reach -/

/-- The allocator after a list of `buddy_alloc` calls. -/
def allocAll (buddy : Buddy) (requests : List Nat) : Buddy :=
  requests.foldl (fun buddy nrpages => (buddy.alloc nrpages).2) buddy

/-- The next `buddy_alloc` succeeds with a block that contains the page. -/
def HandsOut (buddy : Buddy) (nrpages page : Nat) : Prop :=
  requestSize nrpages ≤ buddy.bitmap 0 ∧
    (buddy.alloc nrpages).1 ≤ page ∧
    page < (buddy.alloc nrpages).1 + requestSize nrpages

instance (buddy : Buddy) (nrpages page : Nat) :
    Decidable (buddy.HandsOut nrpages page) :=
  inferInstanceAs (Decidable (_ ∧ _ ∧ _))

/-- Some `buddy_alloc` hands out the page, possibly after others. -/
def Available (buddy : Buddy) (page : Nat) : Prop :=
  ∃ requests nrpages, (buddy.allocAll requests).HandsOut nrpages page

/-- The same with requests of at most `2 ^ 63` pages. -/
def Grantable (buddy : Buddy) (page : Nat) : Prop :=
  ∃ requests nrpages, (∀ request ∈ nrpages :: requests, request ≤ 2 ^ 63) ∧
    (buddy.allocAll requests).HandsOut nrpages page

theorem Grantable.available {page : Nat} (grantable : buddy.Grantable page) :
    buddy.Available page := by
  obtain ⟨requests, nrpages, -, handsOut⟩ := grantable
  exact ⟨requests, nrpages, handsOut⟩

/-- A request for one page hands out the lowest free page. -/
theorem alloc_one (size_eq : buddy.size = 2 ^ top)
    (inv : TreeInv top buddy.bitmap live) {pfn : Nat}
    (inMemory : pfn < 2 ^ top) (free : FreePage live pfn) :
    ∃ lowest, FreePage live lowest ∧
      (∀ other, FreePage live other → lowest ≤ other) ∧
      1 ≤ buddy.bitmap 0 ∧ (buddy.alloc 1).1 = lowest ∧
      (buddy.alloc 1).2.size = 2 ^ top ∧
      TreeInv top (buddy.alloc 1).2.bitmap (page lowest :: live) := by
  have pageFree : ∀ other, FreePage live other →
      AllFree (FreePage live) (page other) := by
    intro other otherFree cell member
    rwa [mem_page.1 member]
  have enough : 2 ^ 0 ≤ buddy.bitmap 0 := by
    rw [inv.root]
    exact length_le_longest top 0 (inTree_page.2 inMemory).within_root
      (pageFree pfn free)
  have rounded : requestSize 1 = 2 ^ 0 := requestSize_one
  obtain ⟨lowest, -, all, least, outcome, after⟩ :=
    alloc_tree size_eq inv rounded enough
  have lowestLe : ∀ other, other < 2 ^ top → FreePage live other →
      lowest ≤ other :=
    fun other inside otherFree =>
      least other (inTree_page.2 inside) (pageFree other otherFree)
  refine ⟨lowest, all lowest (mem_page.2 rfl), ?_, enough, ?_, ?_, after⟩
  · intro other otherFree
    by_cases inside : other < 2 ^ top
    · exact lowestLe other inside otherFree
    · have bound := lowestLe pfn inMemory free
      omega
  · rw [outcome]
    exact page_first lowest
  · rw [outcome]
    exact size_eq

/-- Requests for single pages hand out the free pages from the lowest on. -/
theorem grantable_of_freePage (size_eq : buddy.size = 2 ^ top)
    (inv : TreeInv top buddy.bitmap live) {pfn : Nat}
    (inMemory : pfn < 2 ^ top) (free : FreePage live pfn) :
    buddy.Grantable pfn := by
  -- The distance from the lowest free page bounds the number of requests.
  suffices reach : ∀ distance,
      (∀ other, FreePage live other → pfn ≤ other + distance) →
      buddy.Grantable pfn from
    reach pfn fun other _ => Nat.le_add_left pfn other
  intro distance within
  induction distance generalizing buddy live with
  | zero =>
      obtain ⟨lowest, lowestFree, least, enough, first, -, -⟩ :=
        alloc_one size_eq inv inMemory free
      have here : lowest = pfn :=
        Nat.le_antisymm (least pfn free) (within lowest lowestFree)
      refine ⟨[], 1, by simp, ?_⟩
      rw [HandsOut, requestSize_one, allocAll, List.foldl_nil, first, here]
      exact ⟨enough, Nat.le_refl _, Nat.lt_succ_self _⟩
  | succ distance induction =>
      obtain ⟨lowest, lowestFree, least, enough, first, afterSize, after⟩ :=
        alloc_one size_eq inv inMemory free
      rcases Nat.eq_or_lt_of_le (least pfn free) with here | later
      · refine ⟨[], 1, by simp, ?_⟩
        rw [HandsOut, requestSize_one, allocAll, List.foldl_nil, first, here]
        exact ⟨enough, Nat.le_refl _, Nat.lt_succ_self _⟩
      · have freeCons : ∀ other, FreePage (page lowest :: live) other ↔
            other ≠ lowest ∧ FreePage live other := by
          intro other
          simp [FreePage, mem_page]
        have stillFree := (freeCons pfn).2 ⟨later.ne', free⟩
        obtain ⟨requests, nrpages, words, handsOut⟩ :=
          induction afterSize after stillFree fun other otherFree => by
            obtain ⟨different, oldFree⟩ := (freeCons other).1 otherFree
            have above := least other oldFree
            have bound := within lowest lowestFree
            omega
        refine ⟨1 :: requests, nrpages, fun request member => ?_, handsOut⟩
        simp only [List.mem_cons] at member
        rcases member with rfl | rfl | later
        · exact words request (by simp)
        · decide
        · exact words request (List.mem_cons_of_mem _ later)

/-! ## The climb from a page of no block -/

/-- Every entry above a free page is positive, so the climb leaves the tree. -/
theorem climb_of_freePage {bitmap : Nat → Nat}
    (inv : TreeInv top bitmap live) {pfn : Nat} (inMemory : pfn < 2 ^ top)
    (free : FreePage live pfn) (fuel height : Nat) (le : height ≤ top)
    (enough : top - height < fuel) :
    climb bitmap fuel (slot top ⟨height, pfn / 2 ^ height⟩) (2 ^ height) =
      (0, 2 ^ (top + 1)) := by
  have pageFree : AllFree (FreePage live) (page pfn) := by
    intro other member
    rwa [mem_page.1 member]
  induction fuel generalizing height with
  | zero => omega
  | succ fuel induction =>
      have member : pfn ∈ (⟨height, pfn / 2 ^ height⟩ : Block) := rfl
      have within : (page pfn).Within ⟨height, pfn / 2 ^ height⟩ :=
        Block.within_of_mem (Nat.zero_le _) (mem_page.2 rfl) member
      have inTree : InTree top ⟨height, pfn / 2 ^ height⟩ := by
        refine ⟨le, ?_⟩
        rw [Nat.div_lt_iff_lt_mul (Nat.two_pow_pos _), ← Nat.pow_add,
          Nat.sub_add_cancel le]
        exact inMemory
      have positive : bitmap (slot top ⟨height, pfn / 2 ^ height⟩) ≠ 0 := by
        rw [inv.exact _ inTree,
          nodeValue_exact (not_strictlyInside_of_free member free)]
        exact (Nat.lt_of_lt_of_le (page pfn).length_pos
          (length_le_longest height _ within pageFree)).ne'
      have doubled : 2 ^ height * 2 = 2 ^ (height + 1) :=
        (Nat.pow_succ 2 height).symm
      by_cases atTop : height = top
      · subst atTop
        have root : slot height ⟨height, pfn / 2 ^ height⟩ = 0 := by
          rw [inTree.offset_zero, slot_root]
        rw [root] at positive ⊢
        simp only [climb, ne_eq, positive, not_false_eq_true, if_true, doubled]
      · have below : height < top := Nat.lt_of_le_of_ne le atTop
        have notRoot : slot top ⟨height, pfn / 2 ^ height⟩ ≠ 0 :=
          (slot_pos below).ne'
        have up : parent (slot top ⟨height, pfn / 2 ^ height⟩) =
            slot top ⟨height + 1, pfn / 2 ^ (height + 1)⟩ := by
          rw [parent, slot_parent below, Nat.div_div_eq_div_mul,
            ← Nat.pow_succ]
        simp only [climb, ne_eq, positive, not_false_eq_true, if_true,
          notRoot, if_false, up, doubled]
        exact induction (height + 1) below (by omega)

/-- Releasing a page of no block writes twice the memory size at the root. -/
theorem free_root_of_freePage (size_eq : buddy.size = 2 ^ top)
    (inv : TreeInv top buddy.bitmap live) {pfn : Nat}
    (inMemory : pfn < 2 ^ top) (free : FreePage live pfn)
    (zero : buddy.refCnt pfn = 0) :
    (buddy.free pfn).bitmap 0 = 2 ^ (top + 1) := by
  have leaf : pfn + buddy.size - 1 = slot top ⟨0, pfn / 2 ^ 0⟩ := by
    have positive : 0 < 2 ^ top := Nat.two_pow_pos top
    simp only [slot, size_eq, Nat.pow_zero, Nat.div_one, Nat.sub_zero]
    omega
  have fuel : top - 0 < slot top ⟨0, pfn / 2 ^ 0⟩ + 1 := by
    have bound : top - 0 ≤ slot top ⟨0, pfn / 2 ^ 0⟩ :=
      slot_ge ⟨0, pfn / 2 ^ 0⟩
    omega
  have climbed := climb_of_freePage inv inMemory free _ 0 (Nat.zero_le _) fuel
  rw [Nat.pow_zero] at climbed
  simp only [Buddy.free, zero, ne_eq, not_true, if_false, leaf]
  simp only [Nat.pow_zero, climbed, mergeAncestors]
  exact Function.update_self ..

/-- A page whose count is zero goes to `buddy_free` as it is. -/
theorem pageRefDec_of_zero {pfn : Nat} (zero : buddy.refCnt pfn = 0) :
    buddy.pageRefDec pfn = buddy.free pfn := by
  simp [pageRefDec, zero]

/-- A leaf whose entry is zero takes the length of one page. -/
theorem free_leaf_of_zero {pfn : Nat} (zero : buddy.refCnt pfn = 0)
    (entry : buddy.bitmap (pfn + buddy.size - 1) = 0) :
    (buddy.free pfn).bitmap (pfn + buddy.size - 1) = 1 := by
  simp only [Buddy.free, zero, climb, entry, ne_eq, not_true, if_false]
  rw [mergeAncestors_of_le _ _ _ (Nat.le_refl _), Function.update_self]

end Buddy

/-! ## No such call is harmless -/

namespace World

/-- What `page_ref_dec` of a page that is no block of its own should keep. -/
structure Harmless (top : Nat) (world : World) (pfn : Nat) : Prop where
  kept : ∀ block ∈ world.live,
    0 < (world.buddy.pageRefDec pfn).refCnt block.first →
    ∀ page, block.first ≤ page → page < block.first + block.length →
      ¬ (world.buddy.pageRefDec pfn).Available page
  bounded : ∀ node, InTree top node →
    (world.buddy.pageRefDec pfn).bitmap (slot top node) ≤ node.length
  unchanged : world.FreePage pfn →
    (world.buddy.pageRefDec pfn).bitmap = world.buddy.bitmap ∧
      (world.buddy.pageRefDec pfn).refCnt = world.buddy.refCnt

variable {top : Nat} {world : World} {pfn : Nat}

/-- A page of no block: the root entry exceeds the memory. -/
theorem not_harmless_of_free {live : List Block}
    (inv : Buddy.Inv top world.buddy live) (inMemory : pfn < 2 ^ top)
    (free : Buddy.FreePage live pfn) : ¬ Harmless top world pfn := by
  intro harmless
  have zero := Buddy.refCnt_of_free inv free
  have bound := harmless.bounded ⟨top, 0⟩ InTree.root
  rw [slot_root, Buddy.pageRefDec_of_zero zero,
    Buddy.free_root_of_freePage inv.size_eq inv.tree inMemory free zero,
    Block.length] at bound
  exact absurd bound (Nat.not_le.2 (Nat.pow_lt_pow_right (by decide) top.lt_succ_self))

/-- An inner page of a block: the block is released although it is counted. -/
theorem not_harmless_of_inner {live : List Block}
    (recorded : world.live = live.map ofBlock)
    (inv : Buddy.Inv top world.buddy live) {block : Block}
    (isLive : block ∈ live) (member : pfn ∈ block)
    (notFirst : ∀ other ∈ world.live, other.first ≠ pfn) :
    ¬ Harmless top world pfn := by
  intro harmless
  have zero : world.buddy.refCnt pfn = 0 := by
    by_contra counted
    obtain ⟨other, otherLive, first⟩ :=
      (inv.counted pfn).1 (Nat.pos_of_ne_zero counted)
    refine notFirst (ofBlock other) ?_ first
    rw [recorded]
    exact List.mem_map_of_mem otherLive
  have released := Buddy.free_tree_of_mem inv.size_eq inv.tree isLive member zero
  have memErase : ∀ other, other ∈ live.erase block ↔
      other ≠ block ∧ other ∈ live := fun other => inv.tree.nodup.mem_erase_iff
  have firstFree : Buddy.FreePage (live.erase block) block.first := by
    intro other remains inOther
    obtain ⟨different, old⟩ := (memErase other).1 remains
    exact different
      (inv.tree.eq_of_mem old isLive inOther block.first_mem)
  have inMemory : block.first < 2 ^ top :=
    (inv.tree.inTree block isLive).lt_of_mem block.first_mem
  have size_eq : (world.buddy.free pfn).size = 2 ^ top := by
    rw [Buddy.free_size, inv.size_eq]
  have available :=
    (Buddy.grantable_of_freePage size_eq released inMemory firstFree).available
  rw [← Buddy.pageRefDec_of_zero zero] at available
  refine harmless.kept (ofBlock block) ?_ ?_ block.first ?_ ?_ available
  · rw [recorded]
    exact List.mem_map_of_mem isLive
  · rw [Buddy.pageRefDec_of_zero zero, Buddy.free_refCnt]
    exact (inv.counted block.first).2 ⟨block, isLive, rfl⟩
  · exact Nat.le_refl _
  · exact Nat.lt_add_of_pos_right block.length_pos

/-- Over `2 ^ 63` pages the release of any page writes the cleared bitmap. -/
theorem not_harmless_of_full : ¬ Harmless 63 (fresh 63) pfn := by
  intro harmless
  have cleared := fresh_bitmap_zero
    (show 2 ^ 63 * 2 % wordModulus = 0 by decide)
  have free : (fresh 63).FreePage pfn := by
    simp [FreePage, fresh]
  have same := (harmless.unchanged free).1
  have leaf := @Buddy.free_leaf_of_zero (fresh 63).buddy pfn rfl
    (by simp only [fresh, cleared])
  rw [← Buddy.pageRefDec_of_zero rfl, same] at leaf
  simp only [fresh, cleared] at leaf
  exact absurd leaf (by decide)

end World

/--
In every state of a run and for every page that is not the first page of a
live block, `page_ref_dec` releases something it must not.
-/
theorem pageRefDec_never_harmless {top : Nat} (small : top ≤ 63)
    {ops : List Op} {world : World}
    (run : Run (Guarded World.Step World.CountFits) (World.fresh top) ops world)
    {pfn : Nat} (inMemory : pfn < 2 ^ top)
    (notFirst : ∀ block ∈ world.live, block.first ≠ pfn) :
    ¬ World.Harmless top world pfn := by
  rcases Nat.lt_or_eq_of_le small with fits | rfl
  · obtain ⟨⟨live, recorded, inv⟩, -⟩ := World.run_inv fits run
    by_cases free : Buddy.FreePage live pfn
    · exact World.not_harmless_of_free inv inMemory free
    · simp only [Buddy.FreePage, not_forall, not_not] at free
      obtain ⟨block, isLive, member⟩ := free
      exact World.not_harmless_of_inner recorded inv isLive member notFirst
  · obtain rfl := World.run_full run
    exact World.not_harmless_of_full

/-- The second page of a block of four. -/
theorem pageRefDec_never_harmless_inner_page :
    ¬ World.Harmless 3 ((World.fresh 3).apply (.alloc 3)) 1 :=
  pageRefDec_never_harmless (by decide)
    (.single ⟨⟨by decide, rfl⟩, by decide⟩) (by decide) (by decide)

/--
On eight pages of which one is handed out, `page_ref_dec` of the free page `5`
puts `16` at the root.
-/
theorem pageRefDec_frees_free_page :
    ∃ world, Run World.Step (World.fresh 3) [.alloc 1] world ∧
      (∀ block ∈ world.live, block.first ≠ 5) ∧
      (world.buddy.pageRefDec 5).bitmap 0 = 16 ∧
      ¬ World.Harmless 3 world 5 := by
  have root : (((World.fresh 3).apply (.alloc 1)).buddy.pageRefDec 5).bitmap 0 =
      16 := by decide
  refine ⟨(World.fresh 3).apply (.alloc 1), .single ⟨by decide, rfl⟩,
    by decide, root, fun harmless => ?_⟩
  have bound := harmless.bounded ⟨3, 0⟩ InTree.root
  rw [slot_root, root] at bound
  exact absurd bound (by decide)

end TinyRiscvOs.Mm
