import TinyRiscvOs.Mm.BuddyMisuse

/-!
# `kfree` does not free

`kfree` is `free_pages`, and `free_pages` calls `buddy_free` without touching
the reference count that `buddy_alloc` set to `1`.  `buddy_free` returns at
once for a counted page, so the call changes nothing and the pages stay in use
for good.
-/

namespace TinyRiscvOs.Mm

open TinyRiscvOs.Lib
open TinyRiscvOs.Lib.Dyadic

namespace Buddy

variable {top : Nat} {buddy : Buddy} {live : List Block}

/-- `free_pages` on the page of a frame number. -/
def freePages (buddy : Buddy) (pfn : Nat) : Buddy :=
  buddy.free pfn

/-- `kfree` on the page of a frame number. -/
def kfree (buddy : Buddy) (pfn : Nat) : Buddy :=
  buddy.freePages pfn

/-- `kalloc` and then `kfree` of its result. -/
def kallocKfree (buddy : Buddy) : Buddy :=
  (buddy.alloc 1).2.kfree (buddy.alloc 1).1

/-- A counted page is not released. -/
theorem kfree_of_counted {pfn : Nat} (counted : buddy.refCnt pfn ≠ 0) :
    buddy.kfree pfn = buddy :=
  if_pos counted

/-! ## The pages that can still be handed out -/

/-- A successful request takes pages that were free. -/
theorem handsOut_free (inv : Inv top buddy live) {nrpages page : Nat}
    (word : nrpages ≤ 2 ^ 63) (handsOut : buddy.HandsOut nrpages page) :
    page < 2 ^ top ∧ FreePage live page := by
  obtain ⟨enough, lower, upper⟩ := handsOut
  have rounded := requestSize_le word
  obtain ⟨q, inTree, all, -, first, -⟩ :=
    alloc_spec inv rounded (rounded ▸ enough)
  rw [first] at lower upper
  rw [rounded] at upper
  have member : page ∈ (⟨Nat.clog 2 nrpages, q⟩ : Block) :=
    Block.mem_iff.2 ⟨lower, upper⟩
  exact ⟨inTree.lt_of_mem member, all page member⟩

/-- A request keeps the tree consistent and releases nothing. -/
theorem alloc_keeps (inv : Inv top buddy live) {nrpages : Nat}
    (word : nrpages ≤ 2 ^ 63) :
    ∃ more, Inv top (buddy.alloc nrpages).2 more ∧
      ∀ page, FreePage more page → FreePage live page := by
  have rounded := requestSize_le word
  by_cases enough : 2 ^ Nat.clog 2 nrpages ≤ buddy.bitmap 0
  · obtain ⟨q, -, -, -, -, -, after⟩ := alloc_spec inv rounded enough
    exact ⟨_, after, fun page free block isLive =>
      free block (List.mem_cons_of_mem _ isLive)⟩
  · rw [alloc_of_lt (by rw [rounded]; exact Nat.not_le.1 enough)]
    exact ⟨live, inv, fun _ => id⟩

/-- What requests can hand out are the free pages of the memory. -/
theorem grantable_iff (inv : Inv top buddy live) (page : Nat) :
    buddy.Grantable page ↔ page < 2 ^ top ∧ FreePage live page := by
  constructor
  · rintro ⟨requests, nrpages, words, handsOut⟩
    induction requests generalizing buddy live with
    | nil =>
        exact handsOut_free inv (words nrpages List.mem_cons_self) handsOut
    | cons request requests induction =>
        obtain ⟨more, after, kept⟩ := alloc_keeps inv (words request (by simp))
        have words' : ∀ other ∈ nrpages :: requests, other ≤ 2 ^ 63 := by
          intro other member
          refine words other ?_
          simp only [List.mem_cons] at member ⊢
          exact member.imp_right Or.inr
        obtain ⟨inMemory, free⟩ := induction after words' handsOut
        exact ⟨inMemory, kept page free⟩
  · rintro ⟨inMemory, free⟩
    exact grantable_of_freePage inv.size_eq inv.tree inMemory free

end Buddy

/-! ## Runs with `kfree` -/

/-- The calls of a run, `kfree` among them. -/
inductive Call where
  | op (op : Op)
  | kfree (pfn : Nat)
deriving DecidableEq, Repr

namespace World

/-- `kfree` is called on first pages of blocks that are handed out. -/
def CallStep (world : World) : Call → World → Prop
  | .op op, next => Guarded Step CountFits world op next
  | .kfree pfn, next =>
      (∃ block ∈ world.live, block.first = pfn) ∧
        next = ⟨world.buddy.kfree pfn, world.live⟩

/-- What `kfree` of a block should achieve. -/
def KfreeUndoes (world : World) (block : LiveBlock) : Prop :=
  ∀ page, block.first ≤ page → page < block.first + block.length →
    (world.buddy.kfree block.first).Grantable page

variable {top : Nat} {world : World}

/-- `kfree` of a block that is handed out changes nothing. -/
theorem kfree_live (inv : Inv top world) {block : LiveBlock}
    (isLive : block ∈ world.live) :
    world.buddy.kfree block.first = world.buddy := by
  obtain ⟨live, recorded, inv⟩ := inv
  rw [recorded, List.mem_map] at isLive
  obtain ⟨dyadic, member, rfl⟩ := isLive
  exact Buddy.kfree_of_counted
    ((inv.counted dyadic.first).2 ⟨dyadic, member, rfl⟩).ne'

theorem Inv.callStep (inv : Inv top world) {call : Call} {next : World}
    (taken : CallStep world call next) : Inv top next := by
  cases call with
  | op op => exact inv.step taken
  | kfree pfn =>
      obtain ⟨⟨block, isLive, rfl⟩, rfl⟩ := taken
      rw [kfree_live inv isLive]
      exact inv

theorem callRun_inv (small : top < 63) {calls : List Call}
    (run : Run CallStep (fresh top) calls world) : Inv top world :=
  run.invariant ⟨[], rfl, Buddy.fresh_inv small⟩
    fun _ _ _ inv taken => inv.callStep taken

/-- A page of a block that is handed out cannot be handed out again. -/
theorem not_grantable_live (inv : Inv top world) {block : LiveBlock}
    (isLive : block ∈ world.live) {page : Nat} (lower : block.first ≤ page)
    (upper : page < block.first + block.length) :
    ¬ world.buddy.Grantable page := by
  obtain ⟨live, recorded, inv⟩ := inv
  intro grantable
  have free := ((Buddy.grantable_iff inv page).1 grantable).2
  exact (freePage_iff recorded page).2 free block isLive ⟨lower, upper⟩

end World

/--
In no state of a run does `kfree` release a block, whatever its count: none of
its pages can be handed out afterwards.  After a successful request and `kfree`
of its result, the free pages are not the ones from before.
-/
theorem kfree_never_undoes {top : Nat} (small : top < 63) {calls : List Call}
    {world : World} (run : Run World.CallStep (World.fresh top) calls world) :
    (∀ block ∈ world.live, ¬ world.KfreeUndoes block) ∧
    ∀ nrpages ≤ 2 ^ 63, Buddy.requestSize nrpages ≤ world.buddy.bitmap 0 →
      ∃ page, world.buddy.Grantable page ∧
        ¬ ((world.buddy.alloc nrpages).2.kfree
          (world.buddy.alloc nrpages).1).Grantable page := by
  have inv := World.callRun_inv small run
  constructor
  · intro block isLive undoes
    have positive : 0 < block.length := by
      obtain ⟨live, recorded, -⟩ := inv
      rw [recorded, List.mem_map] at isLive
      obtain ⟨dyadic, -, rfl⟩ := isLive
      exact dyadic.length_pos
    have again := undoes block.first (Nat.le_refl _)
      (Nat.lt_add_of_pos_right positive)
    rw [World.kfree_live inv isLive] at again
    exact World.not_grantable_live inv isLive (Nat.le_refl _)
      (Nat.lt_add_of_pos_right positive) again
  · intro nrpages word enough
    obtain ⟨live, -, inv⟩ := inv
    have rounded := Buddy.requestSize_le word
    obtain ⟨q, inTree, all, -, first, -, after⟩ :=
      Buddy.alloc_spec inv rounded (rounded ▸ enough)
    have member := Block.first_mem ⟨Nat.clog 2 nrpages, q⟩
    have counted := ((after.counted _).2 ⟨_, List.mem_cons_self, rfl⟩).ne'
    refine ⟨_, (Buddy.grantable_iff inv _).2
      ⟨inTree.lt_of_mem member, all _ member⟩, ?_⟩
    rw [first, Buddy.kfree_of_counted counted, Buddy.grantable_iff after]
    rintro ⟨-, free⟩
    exact free _ List.mem_cons_self member

/-- The second of two pages handed out, on eight pages. -/
theorem kfree_never_undoes_eight_pages :
    ¬ World.KfreeUndoes
      (([.alloc 1, .alloc 1] : List Op).foldl World.apply (World.fresh 3))
      ⟨1, 1⟩ :=
  (@kfree_never_undoes 3 (by decide)
    [.op (.alloc 1), .op (.alloc 1)] _
    (.cons ⟨⟨by decide, rfl⟩, trivial⟩
      (.single ⟨⟨by decide, rfl⟩, trivial⟩))).1 ⟨1, 1⟩ (by decide)

/--
Eight pages, of which the kernel keeps the first: seven pairs of `kalloc` and
`kfree` use up the others.
-/
theorem kallocKfree_exhausts :
    (Buddy.reserve 1 (Buddy.fresh (2 ^ 3))).Grantable 1 ∧
      ¬ (Buddy.reserve 1 (Buddy.fresh (2 ^ 3))).kallocKfree.Grantable 1 ∧
      (Buddy.kallocKfree^[7]
        (Buddy.reserve 1 (Buddy.fresh (2 ^ 3)))).bitmap 0 = 0 := by
  obtain ⟨ran, -⟩ := @World.reserve_run 3 (by decide) 1 (by decide)
  have base : World.Inv 3 (World.fresh 3) :=
    ⟨[], rfl, @Buddy.fresh_inv 3 (by decide)⟩
  have kept := ran.invariant base fun _ _ _ inv taken => inv.step taken
  let world : World :=
    ⟨((Buddy.reserve 1 (Buddy.fresh (2 ^ 3))).alloc 1).2, [⟨1, 1⟩, ⟨0, 1⟩]⟩
  have taken : Guarded World.Step World.CountFits
      ⟨Buddy.reserve 1 (Buddy.fresh (2 ^ 3)), World.reserved 1⟩ (.alloc 1)
      world := ⟨⟨by decide, rfl⟩, trivial⟩
  have after : World.Inv 3 world := kept.step taken
  have isLive : (⟨1, 1⟩ : LiveBlock) ∈ world.live := List.mem_cons_self
  refine ⟨?_, ?_, by decide⟩
  · obtain ⟨live, recorded, inv⟩ := kept
    refine (Buddy.grantable_iff inv 1).2
      ⟨by decide, (World.freePage_iff recorded 1).1 ?_⟩
    intro block member inside
    obtain ⟨first, single⟩ := World.mem_reserved.1 member
    have upper := inside.2
    omega
  · have same : (Buddy.reserve 1 (Buddy.fresh (2 ^ 3))).kallocKfree =
        world.buddy := World.kfree_live after isLive
    rw [same]
    exact World.not_grantable_live after isLive (Nat.le_refl 1) (by decide)

end TinyRiscvOs.Mm
