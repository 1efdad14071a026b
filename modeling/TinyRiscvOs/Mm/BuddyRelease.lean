import TinyRiscvOs.Mm.BuddyRun
import Mathlib.Data.List.Perm.Basic

/-!
# Release undoes allocation, in every order

The whole bitmap is determined by the set of live blocks: the slots of the
tree by `nodeValue`, the indices behind the tree because no operation writes
them.  Two allocators with the same live blocks that come from the same tree
therefore have equal bitmaps, whatever the operations between them were.
-/

namespace TinyRiscvOs.Mm

open TinyRiscvOs.Lib
open TinyRiscvOs.Lib.Dyadic

attribute [ext] Buddy

namespace Buddy

/-! ## Writes stay inside the tree -/

theorem parent_lt {index : Nat} (positive : index ≠ 0) : parent index < index := by
  simp only [parent]
  omega

theorem lowerAncestors_of_le (fuel : Nat) {position index : Nat}
    (bitmap : Nat → Nat) (behind : position ≤ index) :
    lowerAncestors fuel position bitmap index = bitmap index := by
  induction fuel generalizing position bitmap with
  | zero => rfl
  | succ fuel induction =>
      by_cases root : position = 0
      · simp [lowerAncestors, root]
      · have lower := parent_lt root
        simp only [lowerAncestors, ne_eq, root, not_false_eq_true, if_true]
        rw [induction _ (by omega), Function.update_of_ne (by omega)]

theorem mergeAncestors_of_le (fuel : Nat) {position index : Nat}
    (nodeSize : Nat) (bitmap : Nat → Nat) (behind : position ≤ index) :
    mergeAncestors fuel position nodeSize bitmap index = bitmap index := by
  induction fuel generalizing position nodeSize bitmap with
  | zero => rfl
  | succ fuel induction =>
      by_cases root : position = 0
      · simp [mergeAncestors, root]
      · have lower := parent_lt root
        simp only [mergeAncestors, ne_eq, root, not_false_eq_true, if_true]
        rw [induction _ _ (by omega), Function.update_of_ne (by omega)]

theorem climb_le (bitmap : Nat → Nat) (fuel position nodeSize : Nat) :
    (climb bitmap fuel position nodeSize).1 ≤ position := by
  induction fuel generalizing position nodeSize with
  | zero => exact Nat.le_refl _
  | succ fuel induction =>
      simp only [climb]
      split
      · split
        · exact Nat.le_refl _
        · next root =>
            exact (induction _ _).trans (parent_lt root).le
      · exact Nat.le_refl _

variable {top : Nat} {buddy : Buddy} {live : List Block}

/-- `buddy_free` writes no index behind the leaf it starts from. -/
theorem free_behind {pfn index : Nat} (behind : pfn + buddy.size - 1 < index) :
    (buddy.free pfn).bitmap index = buddy.bitmap index := by
  unfold free
  split
  · rfl
  · have climbed := climb_le buddy.bitmap (pfn + buddy.size - 1 + 1)
      (pfn + buddy.size - 1) 1
    dsimp only
    rw [mergeAncestors_of_le _ _ _ (by omega),
      Function.update_of_ne (by omega)]

theorem pageRefDec_behind {pfn index : Nat}
    (behind : pfn + buddy.size - 1 < index) :
    (buddy.pageRefDec pfn).bitmap index = buddy.bitmap index := by
  unfold pageRefDec
  dsimp only
  split
  · split
    · exact free_behind behind
    · rfl
  · split
    · exact free_behind behind
    · rfl

/-- `buddy_alloc` writes no index behind the tree. -/
theorem alloc_behind (size_eq : buddy.size = 2 ^ top)
    (inv : TreeInv top buddy.bitmap live) {nrpages m index : Nat}
    (rounded : requestSize nrpages = 2 ^ m) (enough : 2 ^ m ≤ buddy.bitmap 0)
    (behind : 2 ^ (top + 1) - 1 ≤ index) :
    (buddy.alloc nrpages).2.bitmap index = buddy.bitmap index := by
  obtain ⟨q, inTree, -, -, outcome, -⟩ :=
    alloc_tree size_eq inv rounded enough
  have inside := slot_lt inTree
  rw [outcome]
  dsimp only
  rw [lowerAncestors_of_le _ _ (by omega), Function.update_of_ne (by omega)]

/-! ## The bitmap is a function of the live blocks -/

theorem nodeValue_congr {left right : List Block}
    (same : ∀ block, block ∈ left ↔ block ∈ right) (node : Block) :
    nodeValue left node = nodeValue right node := by
  have freeIff : ∀ page, FreePage left page ↔ FreePage right page := by
    simp [FreePage, same]
  have insideIff : StrictlyInside left node ↔ StrictlyInside right node := by
    simp [StrictlyInside, same]
  by_cases inside : StrictlyInside left node
  · rw [nodeValue_inside inside, nodeValue_inside (insideIff.1 inside)]
  · rw [nodeValue_exact inside, nodeValue_exact (insideIff.not.1 inside)]
    exact longest_congr fun page _ => freeIff page

/-- Two trees with the same live blocks that agree behind the tree are equal. -/
theorem TreeInv.bitmap_unique {first second : Nat → Nat}
    {left right : List Block} (firstInv : TreeInv top first left)
    (secondInv : TreeInv top second right)
    (same : ∀ block, block ∈ left ↔ block ∈ right)
    (behind : ∀ index, 2 ^ (top + 1) - 1 ≤ index → first index = second index) :
    first = second := by
  funext index
  rcases Nat.lt_or_ge index (2 ^ (top + 1) - 1) with inside | outside
  · obtain ⟨node, inTree, rfl⟩ := exists_slot inside
    rw [firstInv.exact node inTree, secondInv.exact node inTree,
      nodeValue_congr same]
  · exact behind index outside

/-! ## Taking a block and giving it back -/

/-- A block that is released at once leaves no trace in the allocator. -/
theorem alloc_pageRefDec (inv : Inv top buddy live) {nrpages m : Nat}
    (rounded : requestSize nrpages = 2 ^ m) (enough : 2 ^ m ≤ buddy.bitmap 0) :
    (buddy.alloc nrpages).2.pageRefDec (buddy.alloc nrpages).1 = buddy := by
  obtain ⟨q, inTree, all, -, pfn, counts, taken⟩ :=
    alloc_spec inv rounded enough
  have unused : buddy.refCnt (Block.first ⟨m, q⟩) = 0 := by
    by_contra used
    obtain ⟨block, isLive, first⟩ :=
      (inv.counted _).1 (Nat.pos_of_ne_zero used)
    exact all _ (Block.first_mem _) block isLive (first ▸ block.first_mem)
  have single : (buddy.alloc nrpages).2.refCnt (Block.first ⟨m, q⟩) = 1 := by
    rw [counts, Function.update_self]
  obtain ⟨released, after⟩ :=
    pageRefDec_last taken List.mem_cons_self single
  have pfnLt : Block.first ⟨m, q⟩ < 2 ^ top :=
    inTree.lt_of_mem (Block.first_mem _)
  have doubled : 2 ^ (top + 1) = 2 * 2 ^ top := Nat.pow_succ'
  rw [pfn]
  have sizes : ((buddy.alloc nrpages).2.pageRefDec
      (Block.first ⟨m, q⟩)).size = buddy.size := by
    rw [after.size_eq, inv.size_eq]
  have bitmaps : ((buddy.alloc nrpages).2.pageRefDec
      (Block.first ⟨m, q⟩)).bitmap = buddy.bitmap := by
    refine after.tree.bitmap_unique inv.tree (fun block => by simp) ?_
    intro index behind
    have taken_size := taken.size_eq
    rw [pageRefDec_behind (by omega),
      alloc_behind inv.size_eq inv.tree rounded enough behind]
  have refCnts : ((buddy.alloc nrpages).2.pageRefDec
      (Block.first ⟨m, q⟩)).refCnt = buddy.refCnt := by
    rw [released, counts, Function.update_idem, ← unused,
      Function.update_eq_self]
  exact Buddy.ext sizes bitmaps refCnts

/-- Releasing a list of blocks with count `1`, one after the other. -/
theorem foldl_pageRefDec (inv : Inv top buddy live) {pages : List Nat}
    (nodup : pages.Nodup)
    (single : ∀ page ∈ pages,
      (∃ block ∈ live, block.first = page) ∧ buddy.refCnt page = 1) :
    ∃ rest, Inv top (pages.foldl pageRefDec buddy) rest ∧
      (∀ block, block ∈ rest ↔ block ∈ live ∧ block.first ∉ pages) ∧
      ∀ index, 2 ^ (top + 1) - 1 ≤ index →
        (pages.foldl pageRefDec buddy).bitmap index = buddy.bitmap index := by
  induction pages generalizing buddy live with
  | nil => exact ⟨live, inv, by simp, fun _ _ => rfl⟩
  | cons page pages induction =>
      obtain ⟨notLater, tailNodup⟩ := List.nodup_cons.1 nodup
      obtain ⟨⟨block, isLive, rfl⟩, one⟩ := single page List.mem_cons_self
      obtain ⟨counts, after⟩ := pageRefDec_last inv isLive one
      have memErase : ∀ other, other ∈ live.erase block ↔
          other ≠ block ∧ other ∈ live :=
        fun other => inv.tree.nodup.mem_erase_iff
      have others : ∀ other ∈ pages,
          (∃ left ∈ live.erase block, left.first = other) ∧
            (buddy.pageRefDec block.first).refCnt other = 1 := by
        intro other member
        have different : other ≠ block.first :=
          fun same => notLater (same ▸ member)
        obtain ⟨⟨left, leftLive, rfl⟩, count⟩ :=
          single other (List.mem_cons_of_mem _ member)
        refine ⟨⟨left, (memErase left).2 ⟨?_, leftLive⟩, rfl⟩, ?_⟩
        · exact fun same => different (same ▸ rfl)
        · rw [counts, Function.update_of_ne different, count]
      obtain ⟨rest, restInv, members, behind⟩ :=
        induction after tailNodup others
      refine ⟨rest, restInv, ?_, ?_⟩
      · intro other
        rw [members, memErase, List.mem_cons, not_or]
        constructor
        · rintro ⟨⟨different, old⟩, outside⟩
          exact ⟨old, fun firsts =>
            different (inv.tree.eq_of_first old isLive firsts), outside⟩
        · rintro ⟨old, different, outside⟩
          exact ⟨⟨fun same => different (same ▸ rfl), old⟩, outside⟩
      · intro index later
        have pfnLt : block.first < 2 ^ top :=
          (inv.tree.inTree block isLive).lt_of_mem block.first_mem
        have doubled : 2 ^ (top + 1) = 2 * 2 ^ top := Nat.pow_succ'
        have size_eq := inv.size_eq
        rw [List.foldl_cons, behind index later, pageRefDec_behind (by omega)]

end Buddy

/-! ## Runs -/

namespace World

variable {top : Nat} {world : World}

/-- No step writes behind the tree. -/
theorem Inv.step_behind (inv : Inv top world) {op : Op} {next : World}
    (taken : Step world op next) {index : Nat}
    (behind : 2 ^ (top + 1) - 1 ≤ index) :
    next.buddy.bitmap index = world.buddy.bitmap index := by
  obtain ⟨allowed, rfl⟩ := taken
  obtain ⟨live, recorded, inv⟩ := inv
  cases op with
  | alloc nrpages =>
      obtain ⟨positive, word⟩ := allowed
      have rounded := Buddy.requestSize_eq positive word
      by_cases small : world.buddy.bitmap 0 < Buddy.requestSize nrpages
      · simp only [apply, small, if_true, Buddy.alloc_of_lt]
      · have enough := Nat.not_lt.1 small
        rw [rounded] at enough
        simp only [apply, small, if_false]
        exact Buddy.alloc_behind inv.size_eq inv.tree rounded enough behind
  | getPage pfn =>
      simp only [apply, Buddy.getPage]
      split <;> rfl
  | pageRefDec pfn =>
      obtain ⟨block, isLive, first⟩ := allowed
      rw [recorded, List.mem_map] at isLive
      obtain ⟨dyadic, member, rfl⟩ := isLive
      have pfnLt : pfn < 2 ^ top := by
        rw [← first]
        exact (inv.tree.inTree dyadic member).lt_of_mem dyadic.first_mem
      have doubled : 2 ^ (top + 1) = 2 * 2 ^ top := Nat.pow_succ'
      have size_eq := inv.size_eq
      exact Buddy.pageRefDec_behind (by omega)

/-- After a run the tree is consistent and its rear is the one of the fresh tree. -/
theorem run_inv (small : top < 63) {ops : List Op}
    (run : Run (Guarded Step CountFits) (fresh top) ops world) :
    Inv top world ∧ ∀ index, 2 ^ (top + 1) - 1 ≤ index →
      world.buddy.bitmap index = (fresh top).buddy.bitmap index := by
  have base : Inv top (fresh top) := ⟨[], rfl, Buddy.fresh_inv small⟩
  refine @Run.invariant _ _ _ _ _ _ (fun world => Inv top world ∧
    ∀ index, 2 ^ (top + 1) - 1 ≤ index →
      world.buddy.bitmap index = (fresh top).buddy.bitmap index)
    run ⟨base, fun _ _ => rfl⟩ ?_
  rintro state event next ⟨inv, behind⟩ taken
  exact ⟨inv.step taken, fun index later =>
    (inv.step_behind taken.1 later).trans (behind index later)⟩

/-- Over `2 ^ 63` pages the bitmap is all zero and nothing is ever handed out. -/
theorem run_full {ops : List Op}
    (run : Run (Guarded Step CountFits) (fresh 63) ops world) :
    world = fresh 63 := by
  have base := fresh_bitmap_zero (show 2 ^ 63 * 2 % wordModulus = 0 by decide)
  refine @Run.invariant _ _ _ _ _ _ (fun world => world = fresh 63) run rfl ?_
  rintro state event next rfl ⟨⟨allowed, rfl⟩, -⟩
  cases event with
  | alloc nrpages =>
      have rounded := Buddy.requestSize_eq allowed.1 allowed.2
      have small : (fresh 63).buddy.bitmap 0 < Buddy.requestSize nrpages := by
        simp only [fresh, base, rounded]
        exact Nat.two_pow_pos _
      simp only [apply, small, if_true, Buddy.alloc_of_lt]
  | getPage pfn => simp [Allowed, fresh] at allowed
  | pageRefDec pfn => simp [Allowed, fresh] at allowed

end World

/--
In every state of a run a successful allocation followed by the release of the
block gives back the allocator as it was; and blocks with count `1` may be
released in any order: the bitmap afterwards is the same, and it is the fresh
one when no block stays handed out.
-/
theorem release_inverts_alloc {top : Nat} (small : top ≤ 63) {ops : List Op}
    {world : World}
    (run : Run (Guarded World.Step World.CountFits) (World.fresh top) ops world) :
    (∀ nrpages, 1 ≤ nrpages → nrpages ≤ 2 ^ 63 →
      Buddy.requestSize nrpages ≤ world.buddy.bitmap 0 →
      (world.buddy.alloc nrpages).2.pageRefDec
        (world.buddy.alloc nrpages).1 = world.buddy) ∧
    ∀ pages others : List Nat, pages.Nodup → pages.Perm others →
      (∀ page ∈ pages, (∃ block ∈ world.live, block.first = page) ∧
        world.buddy.refCnt page = 1) →
      (pages.foldl Buddy.pageRefDec world.buddy).bitmap =
        (others.foldl Buddy.pageRefDec world.buddy).bitmap ∧
      ((∀ block ∈ world.live, block.first ∈ pages) →
        (pages.foldl Buddy.pageRefDec world.buddy).bitmap =
          (Buddy.fresh (2 ^ top)).bitmap) := by
  rcases Nat.lt_or_eq_of_le small with fits | rfl
  · obtain ⟨⟨live, recorded, inv⟩, behind⟩ := World.run_inv fits run
    constructor
    · intro nrpages positive word enough
      have rounded := Buddy.requestSize_eq positive word
      exact Buddy.alloc_pageRefDec inv rounded (rounded ▸ enough)
    · intro pages others nodup perm single
      have isFirst : ∀ page ∈ pages,
          (∃ block ∈ live, block.first = page) ∧
            world.buddy.refCnt page = 1 := by
        intro page member
        obtain ⟨⟨block, isLive, first⟩, one⟩ := single page member
        rw [recorded, List.mem_map] at isLive
        obtain ⟨dyadic, dyadicLive, rfl⟩ := isLive
        exact ⟨⟨dyadic, dyadicLive, first⟩, one⟩
      obtain ⟨rest, restInv, members, kept⟩ :=
        Buddy.foldl_pageRefDec inv nodup isFirst
      obtain ⟨rest', restInv', members', kept'⟩ :=
        Buddy.foldl_pageRefDec inv (perm.nodup_iff.1 nodup)
          fun page member => isFirst page (perm.mem_iff.2 member)
      constructor
      · refine restInv.tree.bitmap_unique restInv'.tree ?_ ?_
        · intro block
          rw [members, members', perm.mem_iff]
        · intro index later
          rw [kept index later, kept' index later]
      · intro everything
        refine restInv.tree.bitmap_unique (Buddy.fresh_inv fits).tree ?_ ?_
        · intro block
          simp only [members, List.not_mem_nil, iff_false, not_and, not_not]
          intro isLive
          refine everything (World.ofBlock block) ?_
          rw [recorded]
          exact List.mem_map_of_mem isLive
        · intro index later
          rw [kept index later, behind index later]
          rfl
  · obtain rfl := World.run_full run
    have base := World.fresh_bitmap_zero
      (show 2 ^ 63 * 2 % wordModulus = 0 by decide)
    constructor
    · intro nrpages positive word enough
      have rounded := Buddy.requestSize_eq positive word
      simp only [World.fresh, base, rounded] at enough
      exact absurd enough (Nat.not_le.2 (Nat.two_pow_pos _))
    · intro pages others nodup perm single
      have none : pages = [] := by
        refine List.eq_nil_iff_forall_not_mem.2 fun page member => ?_
        obtain ⟨⟨block, isLive, -⟩, -⟩ := single page member
        simp [World.fresh] at isLive
      subst none
      rw [List.nil_perm.1 perm]
      exact ⟨rfl, fun _ => rfl⟩

/-- Three blocks of eight pages, released in two orders. -/
theorem release_inverts_alloc_eight_pages :
    let world := ([.alloc 3, .alloc 1, .alloc 2] : List Op).foldl World.apply
      (World.fresh 3)
    (world.buddy.alloc 1).2.pageRefDec (world.buddy.alloc 1).1 =
        world.buddy ∧
      ([0, 4, 6].foldl Buddy.pageRefDec world.buddy).bitmap =
        ([6, 0, 4].foldl Buddy.pageRefDec world.buddy).bitmap ∧
      ([0, 4, 6].foldl Buddy.pageRefDec world.buddy).bitmap =
        (Buddy.fresh (2 ^ 3)).bitmap := by
  have inverse :=
    release_inverts_alloc (by decide)
      (Run.ofLegal (fun _ _ legal => ⟨⟨legal.1, rfl⟩, legal.2⟩)
        (show Legal World.apply
            (fun world op => world.Allowed op ∧ world.CountFits op)
            (World.fresh 3) [.alloc 3, .alloc 1, .alloc 2]
          from by decide))
  have orders := inverse.2 [0, 4, 6] [6, 0, 4] (by decide) (by decide)
    (by decide)
  exact ⟨inverse.1 1 (by decide) (by decide) (by decide), orders.1,
    orders.2 (by decide)⟩

end TinyRiscvOs.Mm
