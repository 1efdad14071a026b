import TinyRiscvOs.Lib.Run
import TinyRiscvOs.Mm.BuddyInvariant

/-!
# Runs of the page allocator

A run starts from the freshly built tree and performs allocations, and
`get_page` and `page_ref_dec` (which is `put_page`) on first pages of live
blocks.  The live blocks are recorded beside the allocator: a block is live
from the call of `buddy_alloc` that returned it until its count drops to `0`.

`Consistent` spells out, in terms of intervals of pages, what the allocator
guarantees.  It holds after every run in which no counter wraps, and the last
section shows that a counter which wraps breaks it.
-/

namespace TinyRiscvOs.Mm

open TinyRiscvOs.Lib
open TinyRiscvOs.Lib.Dyadic

/-- A block handed out by `buddy_alloc`: its first page and its length. -/
structure LiveBlock where
  first : Nat
  length : Nat
deriving DecidableEq, Repr

/-- The allocator and the blocks that are currently handed out. -/
structure World where
  buddy : Buddy
  live : List LiveBlock

/-- The calls of a run. -/
inductive Op where
  | alloc (nrpages : Nat)
  | getPage (pfn : Nat)
  | pageRefDec (pfn : Nat)
deriving DecidableEq, Repr

namespace World

/-- The freshly built tree over `2 ^ top` pages, nothing handed out. -/
def fresh (top : Nat) : World where
  buddy := Buddy.fresh (2 ^ top)
  live := []

/-- Requests are between `1` and `2 ^ 63`; counts are moved on first pages of live blocks only. -/
def Allowed (world : World) : Op → Prop
  | .alloc nrpages => 1 ≤ nrpages ∧ nrpages ≤ 2 ^ 63
  | .getPage pfn => ∃ block ∈ world.live, block.first = pfn
  | .pageRefDec pfn => ∃ block ∈ world.live, block.first = pfn

instance (world : World) (op : Op) : Decidable (world.Allowed op) := by
  cases op <;> unfold Allowed <;> infer_instance

/-- The call, and the bookkeeping of what is handed out. -/
def apply (world : World) : Op → World
  | .alloc nrpages =>
      let result := world.buddy.alloc nrpages
      if world.buddy.bitmap 0 < Buddy.requestSize nrpages then
        ⟨result.2, world.live⟩
      else
        ⟨result.2, ⟨result.1, 2 ^ Nat.clog 2 nrpages⟩ :: world.live⟩
  | .getPage pfn => ⟨(world.buddy.getPage pfn).2, world.live⟩
  | .pageRefDec pfn =>
      let buddy := world.buddy.pageRefDec pfn
      ⟨buddy,
        if buddy.refCnt pfn = 0 then
          world.live.filter fun block => block.first ≠ pfn
        else world.live⟩

/-- One step of a run. -/
def Step (world : World) (op : Op) (next : World) : Prop :=
  world.Allowed op ∧ next = world.apply op

/-- The step does not wrap a reference counter. -/
def CountFits (world : World) : Op → Prop
  | .getPage pfn => world.buddy.refCnt pfn + 1 < wordModulus
  | _ => True

instance (world : World) (op : Op) : Decidable (world.CountFits op) := by
  cases op <;> unfold CountFits <;> infer_instance

/-- A page that lies in no block handed out. -/
def FreePage (world : World) (page : Nat) : Prop :=
  ∀ block ∈ world.live,
    ¬ (block.first ≤ page ∧ page < block.first + block.length)

/-- A tree node inside a block handed out, and smaller than it. -/
def StrictlyInside (world : World) (node : Block) : Prop :=
  ∃ block ∈ world.live, block.first ≤ node.first ∧
    node.first + node.length ≤ block.first + block.length ∧
    node.length < block.length

/-- What holds of the allocator and of the blocks it handed out. -/
structure Consistent (top : Nat) (world : World) : Prop where
  inside : ∀ block ∈ world.live, block.first + block.length ≤ 2 ^ top
  aligned : ∀ block ∈ world.live, block.length ∣ block.first
  disjoint : world.live.Pairwise fun left right =>
    left.first + left.length ≤ right.first ∨
      right.first + right.length ≤ left.first
  counted : ∀ page, 0 < world.buddy.refCnt page ↔
    ∃ block ∈ world.live, block.first = page
  largest : ∀ node, InTree top node → ¬ world.StrictlyInside node →
    IsGreatest (insert 0 (freeLengths world.FreePage node))
      (world.buddy.bitmap (slot top node))

/-! ## The live blocks are dyadic -/

/-- A dyadic block as an interval of pages. -/
def ofBlock (block : Block) : LiveBlock :=
  ⟨block.first, block.length⟩

/-- The allocator invariant for the recorded blocks. -/
def Inv (top : Nat) (world : World) : Prop :=
  ∃ live : List Block,
    world.live = live.map ofBlock ∧ Buddy.Inv top world.buddy live

variable {top : Nat} {world : World}

/-- Interval form of nesting. -/
theorem within_iff_interval {inner outer : Block}
    (ordered : inner.height ≤ outer.height) :
    inner.Within outer ↔
      outer.first ≤ inner.first ∧
        inner.first + inner.length ≤ outer.first + outer.length := by
  have positive := inner.length_pos
  constructor
  · intro within
    have start := Block.mem_iff.1 (within.mem inner.first_mem)
    have last : inner.first + inner.length - 1 ∈ outer :=
      within.mem (Block.mem_iff.2 (by omega))
    have bound := Block.mem_iff.1 last
    omega
  · intro interval
    exact (Block.within_iff_first_mem ordered).2 (Block.mem_iff.2 (by omega))

theorem height_lt_iff {inner outer : Block} :
    inner.height < outer.height ↔ inner.length < outer.length :=
  (Nat.pow_lt_pow_iff_right (by decide)).symm

theorem Inv.consistent (inv : Inv top world) : Consistent top world := by
  obtain ⟨live, recorded, inv⟩ := inv
  have freeIff : ∀ page, world.FreePage page ↔ Buddy.FreePage live page := by
    intro page
    simp only [FreePage, Buddy.FreePage, recorded, List.forall_mem_map,
      ofBlock, Block.mem_iff]
  have insideIff : ∀ node, world.StrictlyInside node ↔
      Buddy.StrictlyInside live node := by
    intro node
    simp only [StrictlyInside, Buddy.StrictlyInside, recorded, List.mem_map,
      exists_exists_and_eq_and, ofBlock]
    refine exists_congr fun block => and_congr_right fun _ => ?_
    constructor
    · rintro ⟨lower, upper, smaller⟩
      have higher := height_lt_iff.2 smaller
      exact ⟨(within_iff_interval higher.le).2 ⟨lower, upper⟩, higher⟩
    · rintro ⟨within, higher⟩
      have interval := (within_iff_interval higher.le).1 within
      exact ⟨interval.1, interval.2, height_lt_iff.1 higher⟩
  constructor
  · intro block isLive
    rw [recorded, List.mem_map] at isLive
    obtain ⟨dyadic, member, rfl⟩ := isLive
    have inTree := inv.tree.inTree dyadic member
    have last : dyadic.first + dyadic.length - 1 ∈ dyadic := by
      have positive := dyadic.length_pos
      exact Block.mem_iff.2 (by omega)
    have bound := inTree.lt_of_mem last
    simp only [ofBlock]
    omega
  · intro block isLive
    rw [recorded, List.mem_map] at isLive
    obtain ⟨dyadic, -, rfl⟩ := isLive
    exact ⟨dyadic.offset, Nat.mul_comm _ _⟩
  · rw [recorded, List.pairwise_map]
    refine inv.tree.disjoint.imp fun {left right} disjoint => ?_
    by_contra overlap
    simp only [ofBlock, not_or, Nat.not_le] at overlap
    have leftPositive := left.length_pos
    have rightPositive := right.length_pos
    exact disjoint (max left.first right.first)
      (Block.mem_iff.2 (by omega)) (Block.mem_iff.2 (by omega))
  · intro page
    rw [inv.counted, recorded]
    simp [ofBlock]
  · intro node inTree outside
    have lengths : freeLengths world.FreePage node =
        freeLengths (Buddy.FreePage live) node := by
      ext size
      simp only [freeLengths, AllFree, freeIff, Set.mem_ofPred_eq]
    rw [lengths, inv.tree.exact node inTree,
      Buddy.nodeValue_exact ((insideIff node).not.1 outside)]
    exact longest_isGreatest node.height node.offset

/-- Removing the block whose first page is given. -/
theorem filter_first {live : List Block} {block : Block} {bitmap : Nat → Nat}
    (tree : Buddy.TreeInv top bitmap live) (isLive : block ∈ live) :
    (live.map ofBlock).filter (fun other => other.first ≠ block.first) =
      (live.erase block).map ofBlock := by
  rw [tree.nodup.erase_eq_filter, List.filter_map]
  congr 1
  refine List.filter_congr fun other member => ?_
  have firsts : other.first = block.first ↔ other = block :=
    ⟨tree.eq_of_first member isLive, fun equal => equal ▸ rfl⟩
  simp [ofBlock, firsts, bne, beq_eq_decide]

/-- One step without a wrapping counter keeps the invariant. -/
theorem Inv.step (inv : Inv top world) {op : Op} {next : World}
    (taken : Guarded Step CountFits world op next) : Inv top next := by
  obtain ⟨⟨allowed, rfl⟩, fits⟩ := taken
  obtain ⟨live, recorded, inv⟩ := inv
  cases op with
  | alloc nrpages =>
      obtain ⟨positive, word⟩ := allowed
      have rounded := Buddy.requestSize_eq positive word
      by_cases small : world.buddy.bitmap 0 < Buddy.requestSize nrpages
      · refine ⟨live, ?_, ?_⟩
        · simpa only [apply, small, if_true] using recorded
        · simpa only [apply, small, if_true, Buddy.alloc_of_lt] using inv
      · have enough : 2 ^ Nat.clog 2 nrpages ≤ world.buddy.bitmap 0 := by
          rw [← rounded]
          exact Nat.not_lt.1 small
        obtain ⟨q, -, -, -, pfn, -, inv⟩ := Buddy.alloc_spec inv rounded enough
        refine ⟨⟨Nat.clog 2 nrpages, q⟩ :: live, ?_, ?_⟩
        · simp only [apply, small, if_false, List.map_cons, recorded, pfn,
            ofBlock, Block.length]
        · simpa only [apply, small, if_false] using inv
  | getPage pfn =>
      obtain ⟨block, isLive, first⟩ := allowed
      have positive : 0 < world.buddy.refCnt pfn := by
        rw [inv.counted]
        rw [recorded, List.mem_map] at isLive
        obtain ⟨dyadic, member, rfl⟩ := isLive
        exact ⟨dyadic, member, first⟩
      exact ⟨live, recorded, (Buddy.getPage_spec inv positive fits).2⟩
  | pageRefDec pfn =>
      obtain ⟨block, isLive, first⟩ := allowed
      rw [recorded, List.mem_map] at isLive
      obtain ⟨dyadic, member, rfl⟩ := isLive
      simp only [ofBlock] at first
      subst first
      have positive := (inv.counted dyadic.first).2 ⟨dyadic, member, rfl⟩
      by_cases last : world.buddy.refCnt dyadic.first = 1
      · obtain ⟨counts, inv⟩ := Buddy.pageRefDec_last inv member last
        refine ⟨live.erase dyadic, ?_, inv⟩
        simp only [apply, counts, Function.update_self, if_true, recorded]
        exact filter_first (Buddy.Inv.tree ‹Buddy.Inv top world.buddy live›) member
      · obtain ⟨-, counts, inv⟩ :=
          Buddy.pageRefDec_shared inv
            (show 2 ≤ world.buddy.refCnt dyadic.first by omega)
        refine ⟨live, ?_, inv⟩
        have remains : world.buddy.refCnt dyadic.first - 1 ≠ 0 := by omega
        simpa only [apply, counts, Function.update_self, remains, if_false]
          using recorded

end World

/--
In every run from the fresh tree in which no reference counter wraps, the
blocks handed out lie inside the memory, are aligned to their length and
disjoint, counts are positive exactly on their first pages, and every node
outside them holds the length of the largest free block below it.
-/
theorem buddy_run_consistent {top : Nat} (small : top < 63) {ops : List Op}
    {world : World}
    (run : Run (Guarded World.Step World.CountFits) (World.fresh top) ops world) :
    World.Consistent top world :=
  have inv : World.Inv top world :=
    run.invariant ⟨[], rfl, Buddy.fresh_inv small⟩
      fun _ _ _ inv taken => inv.step taken
  inv.consistent

/-- Two allocations, a second reference and two releases on eight pages. -/
theorem buddy_run_consistent_eight_pages :
    World.Consistent 3
      (([.alloc 3, .alloc 1, .getPage 4, .pageRefDec 4, .pageRefDec 0] :
        List Op).foldl World.apply (World.fresh 3)) :=
  buddy_run_consistent (by decide)
    (Run.ofLegal (fun _ _ legal => ⟨⟨legal.1, rfl⟩, legal.2⟩)
      (show Legal World.apply
          (fun world op => world.Allowed op ∧ world.CountFits op) _ _
        from by decide))

/-! ## Where the arithmetic wraps -/

namespace World

/-- One page, handed out once. -/
private def onePage : World :=
  (fresh 0).apply (.alloc 1)

private theorem onePage_live : onePage.live = [⟨0, 1⟩] := by
  decide

/-- After `n` further references the counter of page `0` holds `n + 1`, wrapped. -/
private theorem references (n : Nat) (bound : n < wordModulus) :
    ∃ world, Run Step (fresh 0) (.alloc 1 :: List.replicate n (.getPage 0)) world ∧
      world.live = [⟨0, 1⟩] ∧
      world.buddy.refCnt 0 = (n + 1) % wordModulus := by
  induction n with
  | zero =>
      exact ⟨onePage, .single ⟨by decide, rfl⟩, onePage_live, by decide⟩
  | succ n induction =>
      obtain ⟨world, run, live, count⟩ := induction (Nat.lt_of_succ_lt bound)
      rw [Nat.mod_eq_of_lt bound] at count
      have positive : world.buddy.refCnt 0 ≠ 0 := by omega
      refine ⟨world.apply (.getPage 0), ?_, live, ?_⟩
      · rw [List.replicate_succ', ← List.cons_append]
        exact run.snoc ⟨⟨⟨0, 1⟩, by simp [live], rfl⟩, rfl⟩
      · simp only [apply, Buddy.getPage]
        rw [if_neg positive]
        simp only [Buddy.pageRefInc, Function.update_self, count]

/-- A `node_size` that starts at `0` leaves the cleared bitmap as it is. -/
private theorem initBitmap_zero (bound fuel i : Nat) :
    Buddy.initBitmap bound fuel i 0 (fun _ => 0) = fun _ => 0 := by
  induction fuel generalizing i with
  | zero => rfl
  | succ fuel induction =>
      have same : Function.update (fun _ : Nat => 0) i 0 = fun _ => 0 :=
        Function.update_eq_self i _
      simp only [Buddy.initBitmap, Nat.zero_div, ite_self, same, induction]

theorem fresh_bitmap_zero {size : Nat}
    (wraps : size * 2 % wordModulus = 0) :
    (Buddy.fresh size).bitmap = fun _ => 0 := by
  simp only [Buddy.fresh, wraps]
  exact initBitmap_zero _ _ _

end World

/--
With `2 ^ 64 - 1` further references on the only page of a one-page memory its
counter is back at `0` while the page is still handed out; and over `2 ^ 63`
pages the first `node_size` wraps to `0`, so the fresh tree has no free page.
-/
theorem buddy_run_wraps :
    (∃ world, Run World.Step (World.fresh 0)
        (.alloc 1 :: List.replicate (wordModulus - 1) (.getPage 0)) world ∧
      ¬ World.Consistent 0 world) ∧
    ¬ World.Consistent 63 (World.fresh 63) := by
  constructor
  · obtain ⟨world, run, live, count⟩ :=
      World.references (wordModulus - 1) (Nat.sub_lt (by decide) (by decide))
    refine ⟨world, run, fun consistent => ?_⟩
    have positive : 0 < world.buddy.refCnt 0 :=
      (consistent.counted 0).2 ⟨⟨0, 1⟩, by simp [live], rfl⟩
    rw [count, Nat.sub_add_cancel (by decide), Nat.mod_self] at positive
    exact absurd positive (Nat.lt_irrefl 0)
  · intro consistent
    have free : ∀ page, (World.fresh 63).FreePage page := by
      simp [World.FreePage, World.fresh]
    have outside : ¬ (World.fresh 63).StrictlyInside ⟨63, 0⟩ := by
      simp [World.StrictlyInside, World.fresh]
    have greatest := consistent.largest ⟨63, 0⟩ InTree.root outside
    have wholly : Block.length ⟨63, 0⟩ ∈
        freeLengths (World.fresh 63).FreePage ⟨63, 0⟩ :=
      ⟨⟨63, 0⟩, .refl _, fun page _ => free page, rfl⟩
    have bound := greatest.2 (Set.mem_insert_of_mem 0 wholly)
    have cleared := World.fresh_bitmap_zero
      (show 2 ^ 63 * 2 % wordModulus = 0 by decide)
    simp only [World.fresh, cleared] at bound
    exact absurd bound (Nat.not_le.2 (Nat.two_pow_pos 63))

end TinyRiscvOs.Mm
