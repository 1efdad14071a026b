import TinyRiscvOs.Mm.BuddyRelease

/-!
# What `buddy_alloc` finds, and where it looks

In a consistent tree a request succeeds exactly when an aligned free block of
the rounded length exists, and then it gets the lowest one.  The second part
follows the indices that a call uses.  A request above `2 ^ 63` has no power of
two above it in 64 bits: `fixsize` wraps to zero, the root passes the admission
test, and the descent leaves the tree.
-/

namespace TinyRiscvOs.Mm

open TinyRiscvOs.Lib
open TinyRiscvOs.Lib.Dyadic

namespace Buddy

variable {top : Nat} {buddy : Buddy} {live : List Block}

/-! ## The lowest free block -/

/-- A block of the tree without a page of a live block. -/
def FreeBlock (top : Nat) (live : List Block) (block : Block) : Prop :=
  InTree top block ∧ AllFree (FreePage live) block

/-- A free block of the rounded length is enough for the admission test. -/
theorem enough_of_freeBlock (inv : Inv top buddy live) {block : Block}
    (free : FreeBlock top live block) : block.length ≤ buddy.bitmap 0 := by
  rw [inv.tree.root]
  exact length_le_longest top 0 free.1.within_root free.2

/-- Without such a block the call fails and changes nothing. -/
theorem alloc_of_noFreeBlock (inv : Inv top buddy live) {nrpages m : Nat}
    (rounded : requestSize nrpages = 2 ^ m)
    (none : ∀ q, ¬ FreeBlock top live ⟨m, q⟩) :
    buddy.alloc nrpages = (0, buddy) := by
  refine alloc_of_lt ?_
  rw [rounded]
  by_contra enough
  obtain ⟨q, inTree, all, -⟩ := alloc_spec inv rounded (Nat.not_lt.1 enough)
  exact none q ⟨inTree, all⟩

/-- With one the call returns the lowest of them. -/
theorem alloc_of_freeBlock (inv : Inv top buddy live) {nrpages m q : Nat}
    (rounded : requestSize nrpages = 2 ^ m) (free : FreeBlock top live ⟨m, q⟩) :
    ∃ lowest, FreeBlock top live ⟨m, lowest⟩ ∧
      (∀ other, FreeBlock top live ⟨m, other⟩ → lowest ≤ other) ∧
      (buddy.alloc nrpages).1 = Block.first ⟨m, lowest⟩ ∧
      (buddy.alloc nrpages).2.refCnt =
        Function.update buddy.refCnt (Block.first ⟨m, lowest⟩) 1 ∧
      Inv top (buddy.alloc nrpages).2 (⟨m, lowest⟩ :: live) := by
  obtain ⟨lowest, inTree, all, least, result⟩ :=
    alloc_spec inv rounded (enough_of_freeBlock inv free)
  exact ⟨lowest, ⟨inTree, all⟩,
    fun other otherFree => least other otherFree.1 otherFree.2, result⟩

end Buddy

namespace World

/-- An aligned run of `length` free pages of the memory. -/
structure FreeBlock (top : Nat) (world : World) (length first : Nat) : Prop where
  aligned : length ∣ first
  inside : first + length ≤ 2 ^ top
  free : ∀ page, first ≤ page → page < first + length → world.FreePage page

variable {top : Nat} {world : World} {live : List Block}

theorem freePage_iff (recorded : world.live = live.map ofBlock) (page : Nat) :
    world.FreePage page ↔ Buddy.FreePage live page := by
  simp only [FreePage, Buddy.FreePage, recorded, List.forall_mem_map, ofBlock,
    Block.mem_iff]

/-- Aligned runs of a power-of-two length are blocks. -/
theorem freeBlock_iff (recorded : world.live = live.map ofBlock) (m q : Nat) :
    world.FreeBlock top (2 ^ m) (Block.first ⟨m, q⟩) ↔
      Buddy.FreeBlock top live ⟨m, q⟩ := by
  have length : Block.length ⟨m, q⟩ = 2 ^ m := rfl
  have first : Block.first ⟨m, q⟩ = q * 2 ^ m := rfl
  have positive : 0 < 2 ^ m := Nat.two_pow_pos m
  constructor
  · rintro ⟨-, inside, free⟩
    have heightLe : m ≤ top := by
      have bound : 2 ^ m ≤ 2 ^ top := by omega
      exact (Nat.pow_le_pow_iff_right (by decide)).1 bound
    refine ⟨⟨heightLe, ?_⟩, ?_⟩
    · have total : 2 ^ top = 2 ^ (top - m) * 2 ^ m := by
        rw [← Nat.pow_add, Nat.sub_add_cancel heightLe]
      rw [total, first, ← Nat.succ_mul] at inside
      exact Nat.le_of_mul_le_mul_right inside positive
    · intro page member
      have interval := Block.mem_iff.1 member
      exact (freePage_iff recorded page).1 (free page interval.1 interval.2)
  · rintro ⟨inTree, all⟩
    refine ⟨⟨q, Nat.mul_comm _ _⟩, ?_, ?_⟩
    · have last : Block.first ⟨m, q⟩ + 2 ^ m - 1 ∈ (⟨m, q⟩ : Block) :=
        Block.mem_iff.2 (by omega)
      have bound := inTree.lt_of_mem last
      omega
    · intro page lower upper
      exact (freePage_iff recorded page).2
        (all page (Block.mem_iff.2 ⟨lower, upper⟩))

end World

/--
In every state of a run, a request from `1` to `2 ^ 63` pages gets the lowest
aligned free block of the rounded length, whose first page then counts `1`; when
there is none it gets `0` and changes nothing.
-/
theorem buddyAlloc_lowest {top : Nat} (small : top < 63) {ops : List Op}
    {world : World}
    (run : Run (Guarded World.Step World.CountFits) (World.fresh top) ops world)
    {nrpages : Nat} (positive : 1 ≤ nrpages) (word : nrpages ≤ 2 ^ 63) :
    let m := 2 ^ Nat.clog 2 nrpages
    ((∃ first, world.FreeBlock top m first) →
      world.FreeBlock top m (world.buddy.alloc nrpages).1 ∧
      (∀ first, world.FreeBlock top m first →
        (world.buddy.alloc nrpages).1 ≤ first) ∧
      (world.buddy.alloc nrpages).2.refCnt =
        Function.update world.buddy.refCnt (world.buddy.alloc nrpages).1 1) ∧
    ((¬ ∃ first, world.FreeBlock top m first) →
      world.buddy.alloc nrpages = (0, world.buddy)) := by
  intro m
  obtain ⟨⟨live, recorded, inv⟩, -⟩ := World.run_inv small run
  have rounded := Buddy.requestSize_eq positive word
  have isBlock : ∀ first, world.FreeBlock top m first →
      ∃ q, first = Block.first ⟨Nat.clog 2 nrpages, q⟩ ∧
        Buddy.FreeBlock top live ⟨Nat.clog 2 nrpages, q⟩ := by
    intro first free
    obtain ⟨q, rfl⟩ := free.aligned
    have start : m * q = Block.first ⟨Nat.clog 2 nrpages, q⟩ :=
      Nat.mul_comm _ _
    rw [start] at free ⊢
    exact ⟨q, rfl, (World.freeBlock_iff recorded _ q).1 free⟩
  constructor
  · rintro ⟨first, free⟩
    obtain ⟨q, -, dyadic⟩ := isBlock first free
    obtain ⟨lowest, lowestFree, least, result, counts, -⟩ :=
      Buddy.alloc_of_freeBlock inv rounded dyadic
    rw [result]
    refine ⟨(World.freeBlock_iff recorded _ lowest).2 lowestFree, ?_, counts⟩
    intro other otherFree
    obtain ⟨q', rfl, otherDyadic⟩ := isBlock other otherFree
    exact Nat.mul_le_mul_right _ (least q' otherDyadic)
  · intro none
    refine Buddy.alloc_of_noFreeBlock inv rounded fun q free => ?_
    exact none ⟨Block.first ⟨Nat.clog 2 nrpages, q⟩,
      (World.freeBlock_iff recorded _ q).2 free⟩

/-- Two pages out of eight, the first and the third of them in use. -/
theorem buddyAlloc_lowest_eight_pages :
    let world := ([.alloc 1, .alloc 1, .alloc 1, .pageRefDec 1] :
      List Op).foldl World.apply (World.fresh 3)
    world.FreeBlock 3 2 (world.buddy.alloc 2).1 ∧
      (world.buddy.alloc 2).1 = 4 ∧
      world.buddy.alloc 5 = (0, world.buddy) := by
  intro world
  have run : Run (Guarded World.Step World.CountFits) (World.fresh 3)
      [.alloc 1, .alloc 1, .alloc 1, .pageRefDec 1] world :=
    Run.ofLegal (fun _ _ legal => ⟨⟨legal.1, rfl⟩, legal.2⟩)
      (show Legal World.apply
          (fun world op => world.Allowed op ∧ world.CountFits op) _ _
        from by decide)
  have two := (@buddyAlloc_lowest 3 (by decide) _ _ run 2 (by decide)
    (by decide)).1
  have five := (@buddyAlloc_lowest 3 (by decide) _ _ run 5 (by decide)
    (by decide)).2
  have clogTwo : Nat.clog 2 2 = 1 := by decide
  have clogFive : Nat.clog 2 5 = 3 := by decide
  rw [clogTwo] at two
  rw [clogFive] at five
  have recorded : world.live = [⟨2, 1⟩, ⟨0, 1⟩] := by decide
  have free : world.FreeBlock 3 2 4 := by
    refine ⟨by decide, by decide, fun page lower upper => ?_⟩
    simp only [World.FreePage, recorded, List.mem_cons, List.not_mem_nil,
      or_false, forall_eq_or_imp, forall_eq]
    omega
  refine ⟨(two ⟨4, free⟩).1, by decide, five ?_⟩
  rintro ⟨first, aligned, inside, all⟩
  have start : first = 0 := by omega
  subst start
  have taken := all 0 (Nat.le_refl 0) (by decide) ⟨0, 1⟩ (by simp [recorded])
  exact taken ⟨Nat.le_refl 0, by decide⟩

/-! ## The indices of a call -/

namespace Buddy

/-- The entries of the bitmap that the descent reads. -/
def descendReads (bitmap : Nat → Nat) (nrpages : Nat) :
    Nat → Nat → Nat → List Nat
  | 0, _, _ => []
  | fuel + 1, index, nodeSize =>
      if nodeSize ≠ nrpages then
        leftLeaf index ::
          if bitmap (leftLeaf index) ≥ nrpages then
            descendReads bitmap nrpages fuel (leftLeaf index) (nodeSize / 2)
          else
            descendReads bitmap nrpages fuel (rightLeaf index) (nodeSize / 2)
      else []

/-- The entries that the closing loop writes and reads. -/
def ancestorIndices : Nat → Nat → List Nat
  | 0, _ => []
  | fuel + 1, index =>
      if index ≠ 0 then
        let index := parent index
        index :: leftLeaf index :: rightLeaf index ::
          ancestorIndices fuel index
      else []

/-- Every index of `bitmap` that a call of `buddy_alloc` uses. -/
def bitmapIndices (buddy : Buddy) (nrpages : Nat) : List Nat :=
  let nrpages := requestSize nrpages
  0 ::
    if buddy.bitmap 0 < nrpages then []
    else
      let (index, _) :=
        descend buddy.bitmap nrpages (buddy.size + 1) 0 buddy.size
      descendReads buddy.bitmap nrpages (buddy.size + 1) 0 buddy.size ++
        index :: ancestorIndices index index

/-- Every index of `ref_cnt` that a call of `buddy_alloc` uses. -/
def refCntIndices (buddy : Buddy) (nrpages : Nat) : List Nat :=
  let nrpages := requestSize nrpages
  if buddy.bitmap 0 < nrpages then []
  else
    let (index, nodeSize) :=
      descend buddy.bitmap nrpages (buddy.size + 1) 0 buddy.size
    [wordSub ((index + 1) * nodeSize) buddy.size]

/-- The least power of two that is not below `max(nrpages, 1)`. -/
def LeastPower (nrpages k : Nat) : Prop :=
  IsLeast {exponent | max nrpages 1 ≤ 2 ^ exponent} k

/-- What the size arithmetic of a call promises. -/
structure SizeSafe (top : Nat) (buddy : Buddy) (live : List Block)
    (nrpages : Nat) : Prop where
  /-- The call works with the least power of two that holds the request. -/
  works : ∀ k q, LeastPower nrpages k → 2 ^ k < wordModulus →
    FreeBlock top live ⟨k, q⟩ → ∃ lowest, FreeBlock top live ⟨k, lowest⟩ ∧
      (buddy.alloc nrpages).1 = Block.first ⟨k, lowest⟩ ∧
      Inv top (buddy.alloc nrpages).2 (⟨k, lowest⟩ :: live)
  /-- No such 64-bit value, or no such block. -/
  fails : (∀ k q, LeastPower nrpages k → 2 ^ k < wordModulus →
      ¬ FreeBlock top live ⟨k, q⟩) →
    buddy.alloc nrpages = (0, buddy)
  inBitmap : ∀ index ∈ buddy.bitmapIndices nrpages, index < 2 * buddy.size - 1
  inRefCnt : ∀ index ∈ buddy.refCntIndices nrpages, index < buddy.size
  /-- The descent stops because its condition is met. -/
  ends : ¬ buddy.bitmap 0 < requestSize nrpages →
    (descend buddy.bitmap (requestSize nrpages) (buddy.size + 1) 0
      buddy.size).2 = requestSize nrpages

/-! ### Requests of up to `2 ^ 63` pages -/

theorem leastPower_clog (nrpages : Nat) :
    LeastPower nrpages (Nat.clog 2 nrpages) := by
  constructor
  · exact Nat.max_le.2 ⟨Nat.le_pow_clog (by decide) nrpages, Nat.two_pow_pos _⟩
  · intro k above
    exact Nat.clog_le_of_le_pow ((Nat.le_max_left nrpages 1).trans above)

/-- The descent reads entries of nodes of the tree. -/
theorem descendReads_lt {bitmap : Nat → Nat} {m fuel height offset index : Nat}
    (inTree : InTree top ⟨height, offset⟩) (le : m ≤ height)
    (member : index ∈ descendReads bitmap (2 ^ m) fuel
      (slot top ⟨height, offset⟩) (2 ^ height)) :
    index < 2 ^ (top + 1) - 1 := by
  induction fuel generalizing height offset with
  | zero => simp [descendReads] at member
  | succ fuel induction =>
      by_cases level : m = height
      · subst level
        simp [descendReads] at member
      · obtain ⟨half, rfl⟩ : ∃ half, height = half + 1 :=
          ⟨height - 1, by omega⟩
        have below : half < top := inTree.1
        have sizes : 2 ^ (half + 1) ≠ 2 ^ m := fun equal =>
          level (Nat.pow_right_injective (Nat.le_refl 2) equal).symm
        have halved : 2 ^ (half + 1) / 2 = 2 ^ half := by
          rw [Nat.pow_succ, Nat.mul_div_cancel _ (by decide)]
        have leftIn : InTree top ⟨half, 2 * offset⟩ := inTree.child (by omega)
        have rightIn : InTree top ⟨half, 2 * offset + 1⟩ :=
          inTree.child (by omega)
        simp only [descendReads, ne_eq, sizes, not_false_eq_true, if_true,
          leftLeaf, rightLeaf, ← slot_left below, ← slot_right below, halved,
          List.mem_cons] at member
        rcases member with rfl | later
        · exact slot_lt leftIn
        · split at later
          · exact induction leftIn (by omega) later
          · exact induction rightIn (by omega) later

/-- The closing loop stays in the tree. -/
theorem ancestorIndices_lt {fuel position index : Nat}
    (inside : position < 2 ^ (top + 1) - 1)
    (member : index ∈ ancestorIndices fuel position) :
    index < 2 ^ (top + 1) - 1 := by
  have doubled : 2 ^ (top + 1) = 2 * 2 ^ top := Nat.pow_succ'
  induction fuel generalizing position with
  | zero => simp [ancestorIndices] at member
  | succ fuel induction =>
      by_cases root : position = 0
      · simp [ancestorIndices, root] at member
      · have smaller := parent_lt root
        simp only [ancestorIndices, ne_eq, root, not_false_eq_true, if_true,
          List.mem_cons] at member
        have up : parent position = (position + 1) / 2 - 1 := rfl
        rcases member with rfl | rfl | rfl | later
        · omega
        · simp only [leftLeaf]
          omega
        · simp only [rightLeaf]
          omega
        · exact induction (by omega) later

theorem sizeSafe_of_le (inv : Inv top buddy live) {nrpages : Nat}
    (word : nrpages ≤ 2 ^ 63) : SizeSafe top buddy live nrpages := by
  have rounded := requestSize_le word
  have least := leastPower_clog nrpages
  have size_eq := inv.size_eq
  have doubled : 2 ^ (top + 1) = 2 * 2 ^ top := Nat.pow_succ'
  have representable : 2 ^ Nat.clog 2 nrpages < wordModulus := by
    refine Nat.pow_lt_pow_right (by decide) ?_
    exact (Nat.clog_le_of_le_pow word).trans_lt (by decide)
  -- The root passes the test: the descent ends at a node of the tree.
  have descent (enough : 2 ^ Nat.clog 2 nrpages ≤ buddy.bitmap 0) :
      Nat.clog 2 nrpages ≤ top ∧
      ∃ q, InTree top ⟨Nat.clog 2 nrpages, q⟩ ∧
        descend buddy.bitmap (2 ^ Nat.clog 2 nrpages) (buddy.size + 1) 0
          buddy.size = (slot top ⟨Nat.clog 2 nrpages, q⟩,
            2 ^ Nat.clog 2 nrpages) := by
    rw [inv.tree.root] at enough
    have mLe : Nat.clog 2 nrpages ≤ top := by
      have bound := enough.trans (longest_le (FreePage live) top 0)
      exact (Nat.pow_le_pow_iff_right (by decide)).1 bound
    have fuel : top - Nat.clog 2 nrpages ≤ 2 ^ top + 1 := by
      have bound := @Nat.lt_two_pow_self top
      omega
    obtain ⟨q, result, within, -⟩ :=
      descend_spec inv.tree InTree.root mLe fuel enough
    rw [slot_root] at result
    rw [size_eq]
    exact ⟨mLe, q, InTree.root.of_within within, result⟩
  refine ⟨?_, ?_, ?_, ?_, ?_⟩
  · intro k q isLeast _ free
    obtain rfl := isLeast.unique least
    obtain ⟨lowest, lowestFree, -, result, -, after⟩ :=
      alloc_of_freeBlock inv rounded free
    exact ⟨lowest, lowestFree, result, after⟩
  · intro none
    exact alloc_of_noFreeBlock inv rounded fun q =>
      none _ q least representable
  · intro index member
    rw [size_eq, ← doubled]
    have positive : 0 < 2 ^ top := Nat.two_pow_pos top
    simp only [bitmapIndices, rounded, List.mem_cons] at member
    rcases member with rfl | member
    · omega
    · split at member
      · simp at member
      · rename_i admitted
        obtain ⟨mLe, q, inTree, result⟩ := descent (Nat.not_lt.1 admitted)
        rw [result] at member
        simp only [List.mem_append, List.mem_cons] at member
        rcases member with read | rfl | above
        · rw [size_eq, ← @slot_root top] at read
          exact descendReads_lt InTree.root mLe read
        · exact slot_lt inTree
        · exact ancestorIndices_lt (slot_lt inTree) above
  · intro index member
    simp only [refCntIndices, rounded] at member
    split at member
    · simp at member
    · rename_i admitted
      obtain ⟨-, q, inTree, result⟩ := descent (Nat.not_lt.1 admitted)
      rw [result] at member
      simp only [List.mem_singleton] at member
      have pfn := pfn_of_slot inTree
      rw [← size_eq] at pfn
      rw [member, pfn, size_eq]
      exact inTree.lt_of_mem (Block.first_mem _)
  · intro admitted
    rw [rounded] at admitted ⊢
    obtain ⟨-, q, -, result⟩ := descent (Nat.not_lt.1 admitted)
    rw [result]

/-! ### Larger requests -/

/-- Looking for a block of length zero, the descent reads behind the leaves. -/
theorem descendReads_zero (bitmap : Nat → Nat) {fuel height : Nat} (index : Nat)
    (enough : height < fuel) :
    (index + 1) * 2 ^ (height + 1) - 1 ∈
      descendReads bitmap 0 fuel index (2 ^ height) := by
  induction fuel generalizing height index with
  | zero => omega
  | succ fuel induction =>
      have positive : 2 ^ height ≠ 0 := (Nat.two_pow_pos height).ne'
      simp only [descendReads, ne_eq, positive, not_false_eq_true, if_true,
        ge_iff_le, Nat.zero_le, List.mem_cons, leftLeaf]
      cases height with
      | zero =>
          refine Or.inl ?_
          omega
      | succ half =>
          have halved : 2 ^ (half + 1) / 2 = 2 ^ half := by
            rw [Nat.pow_succ, Nat.mul_div_cancel _ (by decide)]
          have child : (index * 2 + 1 + 1) * 2 ^ (half + 1) =
              (index + 1) * 2 ^ (half + 1 + 1) := by
            rw [Nat.pow_succ 2 (half + 1)]
            ring
          have below := induction (index * 2 + 1) (by omega : half < fuel)
          rw [child] at below
          rw [halved]
          exact Or.inr below

theorem not_sizeSafe_of_lt (size_eq : buddy.size = 2 ^ top) {nrpages : Nat}
    (large : 2 ^ 63 < nrpages) (word : nrpages < wordModulus) :
    ¬ SizeSafe top buddy live nrpages := by
  intro safe
  have doubled : 2 ^ (top + 1) = 2 * 2 ^ top := Nat.pow_succ'
  have fuel : top < 2 ^ top + 1 :=
    (Nat.lt_two_pow_self).trans (Nat.lt_succ_self _)
  have behind := descendReads_zero buddy.bitmap 0 fuel
  have bound := safe.inBitmap (2 ^ (top + 1) - 1) (by
    simp only [bitmapIndices, requestSize_wraps large word, Nat.not_lt_zero,
      if_false, size_eq, List.mem_cons, List.mem_append]
    rw [Nat.zero_add, Nat.one_mul] at behind
    exact Or.inr (Or.inl behind))
  rw [size_eq, ← doubled] at bound
  exact absurd bound (Nat.lt_irrefl _)

end Buddy

/--
In every consistent tree and for every 64-bit request the size arithmetic of
`buddy_alloc` is right exactly up to `2 ^ 63`.
-/
theorem buddyAlloc_sizeSafe_iff {top : Nat} {buddy : Buddy}
    {live : List Block} (inv : Buddy.Inv top buddy live) {nrpages : Nat}
    (word : nrpages < wordModulus) :
    Buddy.SizeSafe top buddy live nrpages ↔ nrpages ≤ 2 ^ 63 := by
  constructor
  · intro safe
    by_contra large
    exact Buddy.not_sizeSafe_of_lt inv.size_eq (Nat.not_le.1 large) word safe
  · exact Buddy.sizeSafe_of_le inv

/-- The largest request that is rounded right, on eight free pages. -/
theorem buddyAlloc_sizeSafe_eight_pages :
    Buddy.SizeSafe 3 (Buddy.fresh (2 ^ 3)) [] (2 ^ 63) :=
  (buddyAlloc_sizeSafe_iff (Buddy.fresh_inv (by decide)) (by decide)).2
    (Nat.le_refl _)

/-- One page more: the first free page number is out of bounds in both arrays. -/
theorem buddyAlloc_wraps :
    Buddy.Inv 3 (Buddy.fresh (2 ^ 3)) [] ∧
      ¬ Buddy.SizeSafe 3 (Buddy.fresh (2 ^ 3)) [] (2 ^ 63 + 1) ∧
      15 ∈ (Buddy.fresh (2 ^ 3)).bitmapIndices (2 ^ 63 + 1) ∧
      (Buddy.fresh (2 ^ 3)).refCntIndices (2 ^ 63 + 1) = [2 ^ 64 - 8] := by
  have behind : 15 ∈ (Buddy.fresh (2 ^ 3)).bitmapIndices (2 ^ 63 + 1) := by
    decide
  refine ⟨Buddy.fresh_inv (by decide), fun safe => ?_, behind, by decide⟩
  have bound := safe.inBitmap 15 behind
  exact absurd bound (by decide)

end TinyRiscvOs.Mm
