import TinyRiscvOs.Mm.BuddyTree

/-!
# The allocator invariant and the effect of each operation

`Inv` adds the reference counts to `TreeInv`: a count is positive exactly on
the first pages of live blocks.  The theorems below say once what each
operation of `mm.c` does to an allocator that satisfies it.
-/

namespace TinyRiscvOs.Mm.Buddy

open TinyRiscvOs.Lib.Dyadic

/-- The allocator state that hands out exactly the blocks of `live`. -/
structure Inv (top : Nat) (buddy : Buddy) (live : List Block) : Prop where
  size_eq : buddy.size = 2 ^ top
  tree : TreeInv top buddy.bitmap live
  counted : ∀ page, 0 < buddy.refCnt page ↔ ∃ block ∈ live, block.first = page
  word : ∀ page, buddy.refCnt page < wordModulus

/-! ## The fresh tree -/

/-- The running `node_size` on entry to iteration `i` of the bitmap loop. -/
private def runningSize (top i : Nat) : Nat :=
  if i = 0 then 2 ^ (top + 1) else 2 ^ (top - Nat.log2 i)

private theorem runningSize_step {top i : Nat} (small : top < 63)
    (bound : i + 1 < 2 ^ (top + 1)) :
    (if isPowerOf2 (i + 1) then runningSize top i / 2 else runningSize top i) =
      runningSize top (i + 1) := by
  have word : i + 1 < wordModulus :=
    Nat.lt_trans bound (Nat.pow_lt_pow_right (by decide) (by omega))
  have power := isPowerOf2_iff (x := i + 1) (Nat.succ_pos i) word
  by_cases start : i = 0
  · subst start
    have isPower : isPowerOf2 (0 + 1) = true := power.2 ⟨0, rfl⟩
    have half : 2 ^ (top + 1) / 2 = 2 ^ top := by
      rw [Nat.pow_succ, Nat.mul_div_cancel _ (by decide)]
    have row : Nat.log2 1 = 0 := by decide
    simp [runningSize, isPower, half, row]
  · have lower := Nat.log2_self_le start
    have upper := Nat.lt_log2_self (n := i)
    simp only [runningSize, start, if_false, Nat.succ_ne_zero]
    split
    · next isPower =>
        obtain ⟨depth, equal⟩ := power.1 isPower
        -- A new row starts, and the previous index closes the row above.
        have rowEq : Nat.log2 (i + 1) = depth := by
          rw [equal, Nat.log2_two_pow]
        have depthLe : depth ≤ top := by
          have strict : 2 ^ depth < 2 ^ (top + 1) := equal ▸ bound
          have exponents := (Nat.pow_lt_pow_iff_right (by decide)).1 strict
          omega
        have above : Nat.log2 i + 1 = depth := by
          have lt : 2 ^ Nat.log2 i < 2 ^ depth := by omega
          have le : 2 ^ depth ≤ 2 ^ (Nat.log2 i + 1) := by omega
          have ltExp := (Nat.pow_lt_pow_iff_right (by decide)).1 lt
          have leExp := (Nat.pow_le_pow_iff_right (by decide)).1 le
          omega
        rw [rowEq, show top - Nat.log2 i = top - depth + 1 by omega,
          Nat.pow_succ, Nat.mul_div_cancel _ (by decide)]
    · next notPower =>
        have same : Nat.log2 (i + 1) = Nat.log2 i := by
          have notEqual : i + 1 ≠ 2 ^ (Nat.log2 i + 1) :=
            fun equal => notPower (power.2 ⟨_, equal⟩)
          rw [Nat.log2_eq_iff (Nat.succ_ne_zero i)]
          omega
        rw [same]

private theorem initBitmap_before (bound fuel i nodeSize index : Nat)
    (bitmap : Nat → Nat) (before : index < i) :
    initBitmap bound fuel i nodeSize bitmap index = bitmap index := by
  induction fuel generalizing i nodeSize bitmap with
  | zero => rfl
  | succ fuel induction =>
      simp only [initBitmap]
      split
      · rw [induction _ _ _ (by omega), Function.update_of_ne (by omega)]
      · rfl

/-- From iteration `i` on, the loop stores the row length at every index. -/
private theorem initBitmap_from {top fuel i index : Nat} (bitmap : Nat → Nat)
    (small : top < 63) (later : i ≤ index) (bound : index < 2 ^ (top + 1) - 1)
    (enough : index < i + fuel) :
    initBitmap (2 ^ (top + 1) - 1) fuel i (runningSize top i) bitmap index =
      2 ^ (top - Nat.log2 (index + 1)) := by
  induction fuel generalizing i bitmap with
  | zero => omega
  | succ fuel induction =>
      have inLoop : i < 2 ^ (top + 1) - 1 := by omega
      simp only [initBitmap, inLoop, if_true,
        runningSize_step small (show i + 1 < 2 ^ (top + 1) by omega)]
      rcases Nat.eq_or_lt_of_le later with here | after
      · subst here
        rw [initBitmap_before _ _ _ _ _ _ (Nat.lt_succ_self _),
          Function.update_self]
        simp [runningSize]
      · exact induction _ after (by omega)

private theorem bitmapBound_eq {top : Nat} (small : top < 63) :
    bitmapBound (2 ^ top) = 2 ^ (top + 1) - 1 := by
  have doubled : 2 * 2 ^ top = 2 ^ (top + 1) := (Nat.pow_succ').symm
  have word : 2 ^ (top + 1) < wordModulus :=
    Nat.pow_lt_pow_right (by decide) (by omega)
  rw [bitmapBound, doubled, Nat.mod_eq_of_lt word,
    word_pred (Nat.two_pow_pos _) word]

private theorem firstSize_eq {top : Nat} (small : top < 63) :
    2 ^ top * 2 % wordModulus = runningSize top 0 := by
  have word : 2 ^ (top + 1) < wordModulus :=
    Nat.pow_lt_pow_right (by decide) (by omega)
  rw [← Nat.pow_succ, Nat.mod_eq_of_lt word, runningSize, if_pos rfl]

/-- The bitmap loop stores at every node the length of the node. -/
theorem fresh_bitmap {top : Nat} (small : top < 63) {node : Block}
    (nodeIn : InTree top node) :
    (fresh (2 ^ top)).bitmap (slot top node) = node.length := by
  obtain ⟨heightLe, offsetLt⟩ := nodeIn
  have rows : 0 < 2 ^ (top - node.height) := Nat.two_pow_pos _
  have wide : 2 * 2 ^ (top - node.height) ≤ 2 ^ (top + 1) := by
    rw [← Nat.pow_succ']
    exact Nat.pow_le_pow_right (by decide) (by omega)
  have depth : Nat.log2 (slot top node + 1) = top - node.height := by
    rw [Nat.log2_eq_iff (Nat.succ_ne_zero _), Nat.pow_succ']
    simp only [slot]
    omega
  have inLoop : slot top node < 2 ^ (top + 1) - 1 := by
    simp only [slot]
    omega
  have enough : slot top node < 0 + 2 * 2 ^ top := by
    rw [← Nat.pow_succ']
    omega
  have stored := initBitmap_from (fun _ => 0) small
    (Nat.zero_le (slot top node)) inLoop enough
  rw [depth, Nat.sub_sub_self heightLe] at stored
  simp only [fresh, firstSize_eq small, bitmapBound_eq small]
  exact stored

/-- The freshly built tree has no live block. -/
theorem fresh_inv {top : Nat} (small : top < 63) :
    Inv top (fresh (2 ^ top)) [] where
  size_eq := rfl
  tree :=
    { inTree := by simp
      disjoint := List.Pairwise.nil
      exact := by
        intro node nodeIn
        have outside : ¬ StrictlyInside [] node := by simp [StrictlyInside]
        have all : AllFree (FreePage []) node := by simp [AllFree, FreePage]
        rw [fresh_bitmap small nodeIn, nodeValue_exact outside]
        exact ((longest_eq_pow_iff node.height node.offset).2 all).symm }
  counted := by simp [fresh]
  word := by simp [fresh, wordModulus]

/-! ## Allocation -/

section Alloc

variable {top : Nat} {bitmap : Nat → Nat} {live : List Block}

/--
The descent ends at the lowest free block of the requested length inside the
node it starts from.
-/
theorem descend_spec (inv : TreeInv top bitmap live) {fuel height offset m : Nat}
    (inTree : InTree top ⟨height, offset⟩) (le : m ≤ height)
    (enough : height - m ≤ fuel)
    (large : 2 ^ m ≤ longest (FreePage live) height offset) :
    ∃ q, descend bitmap (2 ^ m) fuel (slot top ⟨height, offset⟩) (2 ^ height) =
        (slot top ⟨m, q⟩, 2 ^ m) ∧
      (⟨m, q⟩ : Block).Within ⟨height, offset⟩ ∧
      AllFree (FreePage live) ⟨m, q⟩ ∧
      ∀ r, (⟨m, r⟩ : Block).Within ⟨height, offset⟩ →
        AllFree (FreePage live) ⟨m, r⟩ → q ≤ r := by
  induction fuel generalizing height offset with
  | zero =>
      have level : m = height := by omega
      subst level
      have full : longest (FreePage live) m offset = 2 ^ m :=
        Nat.le_antisymm (longest_le _ m offset) large
      refine ⟨offset, rfl, Block.Within.refl _, (longest_eq_pow_iff m offset).1 full, ?_⟩
      intro r within _
      simpa [Block.Within] using within.2.ge
  | succ fuel induction =>
      by_cases level : m = height
      · subst level
        have full : longest (FreePage live) m offset = 2 ^ m :=
          Nat.le_antisymm (longest_le _ m offset) large
        refine ⟨offset, by simp [descend], Block.Within.refl _,
          (longest_eq_pow_iff m offset).1 full, ?_⟩
        intro r within _
        simpa [Block.Within] using within.2.ge
      · obtain ⟨half, rfl⟩ : ∃ half, height = half + 1 :=
          ⟨height - 1, by omega⟩
        have below : half < top := inTree.1
        have halfLe : m ≤ half := by omega
        have sizes : 2 ^ (half + 1) ≠ 2 ^ m := fun equal =>
          level (Nat.pow_right_injective (Nat.le_refl 2) equal).symm
        have halved : 2 ^ (half + 1) / 2 = 2 ^ half := by
          rw [Nat.pow_succ, Nat.mul_div_cancel _ (by decide)]
        have leftIn : InTree top ⟨half, 2 * offset⟩ := inTree.child (by omega)
        have rightIn : InTree top ⟨half, 2 * offset + 1⟩ :=
          inTree.child (by omega)
        have positive : 0 < 2 ^ m := Nat.two_pow_pos m
        -- A half with enough free pages is exact; a bitmap entry can only
        -- overstate a half that lies inside a live block.
        have parentFree : ¬ ∃ block ∈ live,
            (⟨half + 1, offset⟩ : Block).Within block := by
          rintro ⟨block, isLive, within⟩
          obtain ⟨inner, innerWithin, all, -⟩ :=
            exists_block_of_longest_pos (Nat.lt_of_lt_of_le positive large)
          exact all _ inner.first_mem block isLive
            (within.mem (innerWithin.mem inner.first_mem))
        have leftValue :
            bitmap (slot top ⟨half, 2 * offset⟩) =
              longest (FreePage live) half (2 * offset) := by
          rw [inv.exact _ leftIn]
          apply nodeValue_exact
          rintro ⟨block, isLive, within, higher⟩
          have toParent : (⟨half, 2 * offset⟩ : Block).Within ⟨half + 1, offset⟩ :=
            Block.within_succ_of_child (by omega)
          exact parentFree ⟨block, isLive,
            Block.within_of_mem higher (toParent.mem (Block.first_mem _))
              (within.mem (Block.first_mem _))⟩
        by_cases goLeft : 2 ^ m ≤ longest (FreePage live) half (2 * offset)
        · obtain ⟨q, result, within, all, least⟩ :=
            induction leftIn halfLe (by omega) goLeft
          have toParent : (⟨half, 2 * offset⟩ : Block).Within ⟨half + 1, offset⟩ :=
            Block.within_succ_of_child (by omega)
          refine ⟨q, ?_, within.trans toParent, all, ?_⟩
          · simp only [descend, ne_eq, sizes, not_false_eq_true, if_true,
              leftLeaf, ← slot_left below, leftValue, goLeft, halved, result]
          · intro r rWithin rAll
            rcases rWithin.child halfLe with inLeft | inRight
            · exact least r inLeft rAll
            · have qRow := within.2
              have rRow := inRight.2
              simp only at qRow rRow
              by_contra greater
              have monotone := Nat.div_le_div_right (c := 2 ^ (half - m))
                (Nat.le_of_lt (Nat.not_le.1 greater))
              omega
        · have goRight : 2 ^ m ≤ longest (FreePage live) half (2 * offset + 1) := by
            have leftLe := longest_le (FreePage live) half (2 * offset)
            have rightLe := longest_le (FreePage live) half (2 * offset + 1)
            have monotone : 2 ^ m ≤ 2 ^ half :=
              Nat.pow_le_pow_right (by decide) halfLe
            have doubled : 2 ^ (half + 1) = 2 * 2 ^ half := Nat.pow_succ'
            simp only [longest, combine] at large
            split at large <;> omega
          obtain ⟨q, result, within, all, least⟩ :=
            induction rightIn halfLe (by omega) goRight
          have toParent : (⟨half, 2 * offset + 1⟩ : Block).Within ⟨half + 1, offset⟩ :=
            Block.within_succ_of_child (by omega)
          refine ⟨q, ?_, within.trans toParent, all, ?_⟩
          · simp only [descend, ne_eq, sizes, not_false_eq_true, if_true,
              leftLeaf, rightLeaf, ← slot_left below, ← slot_right below,
              leftValue, goLeft, halved, result, if_false]
          · intro r rWithin rAll
            rcases rWithin.child halfLe with inLeft | inRight
            · exact absurd (length_le_longest half _ inLeft rAll) goLeft
            · exact least r inRight rAll

/-- The entry of an allocated node is zero and nothing else needs repair but its ancestors. -/
private theorem settled_cons (inv : TreeInv top bitmap live) {block : Block}
    (inTree : InTree top block) (all : AllFree (FreePage live) block) :
    Settled top (Function.update bitmap (slot top block) 0) (block :: live)
      block := by
  have freeCons : ∀ page, FreePage (block :: live) page ↔
      page ∉ block ∧ FreePage live page := by
    intro page
    simp [FreePage]
  have notInside : ¬ StrictlyInside (block :: live) block := by
    rintro ⟨outer, isLive, within, higher⟩
    rcases List.mem_cons.1 isLive with rfl | old
    · exact absurd higher (Nat.lt_irrefl _)
    · exact all _ block.first_mem outer old (within.mem block.first_mem)
  intro node nodeIn notAncestor
  by_cases same : node = block
  · subst same
    rw [Function.update_self, nodeValue_exact notInside, eq_comm,
      longest_eq_zero_iff]
    exact fun page member free => ((freeCons page).1 free).1 member
  · have slots : slot top node ≠ slot top block :=
      fun equal => same (slot_injective nodeIn inTree equal)
    rw [Function.update_of_ne slots, inv.exact node nodeIn]
    by_cases within : node.Within block
    · -- Inside the new block the old exact value is the full length.
      have inside : StrictlyInside (block :: live) node := by
        refine ⟨block, List.mem_cons_self, within, ?_⟩
        exact Nat.lt_of_le_of_ne within.1 fun heights =>
          same (Block.eq_of_within_of_height within heights)
      have nodeFree : AllFree (FreePage live) node :=
        fun page member => all page (within.mem member)
      rw [nodeValue_inside inside, nodeValue_exact
        (not_strictlyInside_of_free node.first_mem (nodeFree _ node.first_mem))]
      exact (longest_eq_pow_iff node.height node.offset).2 nodeFree
    · -- Elsewhere the node shares no page with the new block.
      have apart : ∀ page ∈ node, page ∉ block := by
        intro page inNode inBlock
        rcases Nat.le_total node.height block.height with low | high
        · exact within (Block.within_of_mem low inNode inBlock)
        · have outer := Block.within_of_mem high inBlock inNode
          by_cases heights : block.height = node.height
          · exact same (Block.eq_of_within_of_height outer heights).symm
          · exact notAncestor ⟨outer, Nat.lt_of_le_of_ne high heights⟩
      have insideIff :
          StrictlyInside (block :: live) node ↔ StrictlyInside live node := by
        constructor
        · rintro ⟨outer, isLive, nested, higher⟩
          rcases List.mem_cons.1 isLive with rfl | old
          · exact absurd nested within
          · exact ⟨outer, old, nested, higher⟩
        · rintro ⟨outer, old, nested, higher⟩
          exact ⟨outer, List.mem_cons_of_mem _ old, nested, higher⟩
      by_cases inside : StrictlyInside live node
      · rw [nodeValue_inside inside, nodeValue_inside (insideIff.2 inside)]
      · rw [nodeValue_exact inside, nodeValue_exact (insideIff.not.2 inside)]
        exact longest_congr fun page member =>
          ⟨fun free => (freeCons page).2 ⟨apart page member, free⟩,
            fun free => ((freeCons page).1 free).2⟩

/-- Cutting a free block out of the tree and repairing its ancestors. -/
private theorem TreeInv.cons (inv : TreeInv top bitmap live) {block : Block}
    (inTree : InTree top block) (all : AllFree (FreePage live) block) :
    TreeInv top
      (lowerAncestors (slot top block) (slot top block)
        (Function.update bitmap (slot top block) 0)) (block :: live) where
  inTree := by
    intro other isLive
    rcases List.mem_cons.1 isLive with rfl | old
    · exact inTree
    · exact inv.inTree other old
  disjoint :=
    List.Pairwise.cons
      (fun other old page inBlock inOther => all page inBlock other old inOther)
      inv.disjoint
  exact := by
    apply lowerAncestors_exact (slot top block) (slot_ge block) inTree
      (settled_cons inv inTree all)
    rintro node ⟨within, higher⟩
    have shared : block.first ∈ node := within.mem block.first_mem
    constructor
    · intro other isLive nested
      rcases List.mem_cons.1 isLive with rfl | old
      · exact absurd nested.1 (Nat.not_le.2 higher)
      · exact all _ block.first_mem other old (nested.mem shared)
    · intro free
      exact free _ shared block List.mem_cons_self block.first_mem

end Alloc

variable {top : Nat} {buddy : Buddy} {live : List Block}

theorem alloc_of_lt {nrpages : Nat}
    (small : buddy.bitmap 0 < requestSize nrpages) :
    buddy.alloc nrpages = (0, buddy) := by
  simp [alloc, small]

/-- The node index and its length give back the first page of the node. -/
theorem pfn_of_slot {node : Block} (inTree : InTree top node) :
    wordSub ((slot top node + 1) * 2 ^ node.height) (2 ^ top) = node.first := by
  have rows : 0 < 2 ^ (top - node.height) := Nat.two_pow_pos _
  have total : 2 ^ (top - node.height) * 2 ^ node.height = 2 ^ top := by
    rw [← Nat.pow_add, Nat.sub_add_cancel inTree.1]
  have index : slot top node + 1 = 2 ^ (top - node.height) + node.offset := by
    simp only [slot]
    omega
  rw [index, Nat.add_mul, total, wordSub_of_le (Nat.le_add_right _ _),
    Nat.add_sub_cancel_left, Block.first]

/-- What a successful allocation writes, for any reference counts. -/
theorem alloc_tree (size_eq : buddy.size = 2 ^ top)
    (inv : TreeInv top buddy.bitmap live) {nrpages m : Nat}
    (rounded : requestSize nrpages = 2 ^ m) (enough : 2 ^ m ≤ buddy.bitmap 0) :
    ∃ q, InTree top ⟨m, q⟩ ∧ AllFree (FreePage live) ⟨m, q⟩ ∧
      (∀ r, InTree top ⟨m, r⟩ → AllFree (FreePage live) ⟨m, r⟩ → q ≤ r) ∧
      buddy.alloc nrpages =
        (Block.first ⟨m, q⟩,
          { buddy with
            bitmap :=
              lowerAncestors (slot top ⟨m, q⟩) (slot top ⟨m, q⟩)
                (Function.update buddy.bitmap (slot top ⟨m, q⟩) 0)
            refCnt := Function.update buddy.refCnt (Block.first ⟨m, q⟩) 1 }) ∧
      TreeInv top (buddy.alloc nrpages).2.bitmap (⟨m, q⟩ :: live) := by
  have rootLarge : 2 ^ m ≤ longest (FreePage live) top 0 := by
    rw [← inv.root]
    exact enough
  have mLe : m ≤ top := by
    have bound := rootLarge.trans (longest_le (FreePage live) top 0)
    exact (Nat.pow_le_pow_iff_right (by decide)).1 bound
  have fuel : top - m ≤ 2 ^ top + 1 := by
    have bound := @Nat.lt_two_pow_self top
    omega
  obtain ⟨q, result, within, all, least⟩ :=
    descend_spec inv InTree.root mLe fuel rootLarge
  have inTree : InTree top ⟨m, q⟩ := InTree.root.of_within within
  have pfn := pfn_of_slot inTree
  rw [slot_root] at result
  have outcome : buddy.alloc nrpages =
      (Block.first ⟨m, q⟩,
        { buddy with
          bitmap :=
            lowerAncestors (slot top ⟨m, q⟩) (slot top ⟨m, q⟩)
              (Function.update buddy.bitmap (slot top ⟨m, q⟩) 0)
          refCnt := Function.update buddy.refCnt (Block.first ⟨m, q⟩) 1 }) := by
    simp only [alloc, rounded, size_eq, Nat.not_lt.2 enough, if_false,
      result]
    rw [pfn]
  refine ⟨q, inTree, all, fun r rIn rAll => least r rIn.within_root rAll,
    outcome, ?_⟩
  rw [outcome]
  exact inv.cons inTree all

/--
A successful allocation returns the lowest free block of the rounded length,
adds it to the live blocks and gives its first page the count `1`.
-/
theorem alloc_spec (inv : Inv top buddy live) {nrpages m : Nat}
    (rounded : requestSize nrpages = 2 ^ m) (enough : 2 ^ m ≤ buddy.bitmap 0) :
    ∃ q, InTree top ⟨m, q⟩ ∧ AllFree (FreePage live) ⟨m, q⟩ ∧
      (∀ r, InTree top ⟨m, r⟩ → AllFree (FreePage live) ⟨m, r⟩ → q ≤ r) ∧
      (buddy.alloc nrpages).1 = Block.first ⟨m, q⟩ ∧
      (buddy.alloc nrpages).2.refCnt =
        Function.update buddy.refCnt (Block.first ⟨m, q⟩) 1 ∧
      Inv top (buddy.alloc nrpages).2 (⟨m, q⟩ :: live) := by
  obtain ⟨q, inTree, all, least, outcome, tree⟩ :=
    alloc_tree inv.size_eq inv.tree rounded enough
  refine ⟨q, inTree, all, least, ?_⟩
  rw [outcome] at tree ⊢
  refine ⟨rfl, rfl, inv.size_eq, tree, ?_, ?_⟩
  · intro page
    by_cases here : page = Block.first ⟨m, q⟩
    · subst here
      simp
    · simp only [Function.update_of_ne here, inv.counted, List.mem_cons,
        exists_eq_or_imp, Ne.symm here, false_or]
  · intro page
    by_cases here : page = Block.first ⟨m, q⟩
    · subst here
      simp [wordModulus]
    · simp only [Function.update_of_ne here]
      exact inv.word page

/-! ## Release -/

section Free

variable {bitmap : Nat → Nat}

/-- From a page of a live block the first zero entry above is the block's own. -/
private theorem climb_spec (inv : TreeInv top bitmap live) {block : Block}
    (isLive : block ∈ live) {page : Nat} (member : page ∈ block)
    (fuel height : Nat) (le : height ≤ block.height)
    (enough : block.height - height < fuel) :
    climb bitmap fuel (slot top ⟨height, page / 2 ^ height⟩) (2 ^ height) =
      (slot top block, 2 ^ block.height) := by
  induction fuel generalizing height with
  | zero => omega
  | succ fuel induction =>
      have within : (⟨height, page / 2 ^ height⟩ : Block).Within block :=
        Block.within_of_mem le rfl member
      by_cases level : height = block.height
      · have same : (⟨height, page / 2 ^ height⟩ : Block) = block :=
          Block.eq_of_within_of_height within level
        rw [same]
        simp [climb, inv.live_zero isLive, level]
      · have below : height < block.height := Nat.lt_of_le_of_ne le level
        have belowTop : height < top :=
          Nat.lt_of_lt_of_le below (inv.inTree block isLive).1
        have stale :
            bitmap (slot top ⟨height, page / 2 ^ height⟩) = 2 ^ height := by
          rw [inv.exact _ ((inv.inTree block isLive).of_within within),
            nodeValue_inside ⟨block, isLive, within, below⟩, Block.length]
        have notZero : 2 ^ height ≠ 0 := (Nat.two_pow_pos height).ne'
        have notRoot : slot top ⟨height, page / 2 ^ height⟩ ≠ 0 :=
          (slot_pos belowTop).ne'
        have up : parent (slot top ⟨height, page / 2 ^ height⟩) =
            slot top ⟨height + 1, page / 2 ^ (height + 1)⟩ := by
          rw [parent, slot_parent belowTop, Nat.div_div_eq_div_mul,
            ← Nat.pow_succ]
        have doubled : 2 ^ height * 2 = 2 ^ (height + 1) :=
          (Nat.pow_succ 2 height).symm
        simp only [climb, stale, ne_eq, notZero, not_false_eq_true, if_true,
          notRoot, if_false, up, doubled]
        exact induction (height + 1) below (by omega)

/-- The released node gets its length and nothing else needs repair but its ancestors. -/
private theorem settled_erase (inv : TreeInv top bitmap live) {block : Block}
    (isLive : block ∈ live) :
    Settled top (Function.update bitmap (slot top block) (2 ^ block.height))
      (live.erase block) block := by
  have memErase : ∀ other, other ∈ live.erase block ↔
      other ≠ block ∧ other ∈ live := fun other => inv.nodup.mem_erase_iff
  have freeErase : ∀ page, FreePage (live.erase block) page ↔
      page ∈ block ∨ FreePage live page := by
    intro page
    constructor
    · intro free
      by_cases inBlock : page ∈ block
      · exact Or.inl inBlock
      · right
        intro other old inOther
        by_cases same : other = block
        · exact inBlock (same ▸ inOther)
        · exact free other ((memErase other).2 ⟨same, old⟩) inOther
    · rintro (inBlock | free) other remains inOther
      · obtain ⟨different, old⟩ := (memErase other).1 remains
        exact different (inv.eq_of_mem old isLive inOther inBlock)
      · exact free other ((memErase other).1 remains).2 inOther
  -- No remaining live block reaches into the released block.
  have blockFree : ∀ node : Block, node.Within block →
      AllFree (FreePage (live.erase block)) node :=
    fun node within page member =>
      (freeErase page).2 (Or.inl (within.mem member))
  intro node nodeIn notAncestor
  by_cases within : node.Within block
  · have outside : ¬ StrictlyInside (live.erase block) node :=
      not_strictlyInside_of_free node.first_mem
        (blockFree node within _ node.first_mem)
    rw [nodeValue_exact outside,
      (longest_eq_pow_iff node.height node.offset).2 (blockFree node within)]
    by_cases same : node = block
    · rw [same, Function.update_self]
    · have slots : slot top node ≠ slot top block := fun equal =>
        same (slot_injective nodeIn (inv.inTree block isLive) equal)
      have lower : node.height < block.height :=
        Nat.lt_of_le_of_ne within.1 fun heights =>
          same (Block.eq_of_within_of_height within heights)
      rw [Function.update_of_ne slots, inv.exact node nodeIn,
        nodeValue_inside ⟨block, isLive, within, lower⟩, Block.length]
  · have different : node ≠ block := fun same =>
      within (same ▸ Block.Within.refl block)
    have slots : slot top node ≠ slot top block := fun equal =>
      different (slot_injective nodeIn (inv.inTree block isLive) equal)
    have apart : ∀ page ∈ node, page ∉ block := by
      intro page inNode inBlock
      rcases Nat.le_total node.height block.height with low | high
      · exact within (Block.within_of_mem low inNode inBlock)
      · have outer := Block.within_of_mem high inBlock inNode
        by_cases heights : block.height = node.height
        · exact different (Block.eq_of_within_of_height outer heights).symm
        · exact notAncestor ⟨outer, Nat.lt_of_le_of_ne high heights⟩
    have insideIff : StrictlyInside (live.erase block) node ↔
        StrictlyInside live node := by
      constructor
      · rintro ⟨outer, remains, nested, higher⟩
        exact ⟨outer, ((memErase outer).1 remains).2, nested, higher⟩
      · rintro ⟨outer, old, nested, higher⟩
        exact ⟨outer, (memErase outer).2
          ⟨fun same => within (same ▸ nested), old⟩, nested, higher⟩
    rw [Function.update_of_ne slots, inv.exact node nodeIn]
    by_cases inside : StrictlyInside live node
    · rw [nodeValue_inside inside, nodeValue_inside (insideIff.2 inside)]
    · rw [nodeValue_exact inside, nodeValue_exact (insideIff.not.2 inside)]
      exact longest_congr fun page member =>
        ⟨fun free => (freeErase page).2 (Or.inr free), fun free =>
          ((freeErase page).1 free).resolve_left (apart page member)⟩

/-- `buddy_free` on any page of a live block, its own count being zero. -/
theorem free_tree_of_mem (size_eq : buddy.size = 2 ^ top)
    (inv : TreeInv top buddy.bitmap live) {block : Block}
    (isLive : block ∈ live) {page : Nat} (member : page ∈ block)
    (zero : buddy.refCnt page = 0) :
    TreeInv top (buddy.free page).bitmap (live.erase block) := by
  have inTree := inv.inTree block isLive
  have leaf : page + buddy.size - 1 =
      slot top ⟨0, page / 2 ^ 0⟩ := by
    have positive : 0 < 2 ^ top := Nat.two_pow_pos top
    simp only [slot, size_eq, Nat.pow_zero, Nat.div_one, Nat.sub_zero]
    omega
  have fuel : block.height - 0 < slot top ⟨0, page / 2 ^ 0⟩ + 1 := by
    have bound : top - 0 ≤ slot top ⟨0, page / 2 ^ 0⟩ :=
      slot_ge ⟨0, page / 2 ^ 0⟩
    have heightLe := inTree.1
    omega
  have climbed := climb_spec inv isLive member _ 0 (Nat.zero_le _) fuel
  rw [Nat.pow_zero] at climbed
  have outcome : (buddy.free page).bitmap =
      mergeAncestors (slot top block) (slot top block) (2 ^ block.height)
        (Function.update buddy.bitmap (slot top block) (2 ^ block.height)) := by
    simp only [free, zero, ne_eq, not_true, if_false, leaf]
    simp only [Nat.pow_zero, climbed]
  have memErase : ∀ other, other ∈ live.erase block ↔
      other ≠ block ∧ other ∈ live := fun other => inv.nodup.mem_erase_iff
  rw [outcome]
  refine ⟨fun other remains => inv.inTree other ((memErase other).1 remains).2,
    inv.disjoint.sublist List.erase_sublist, ?_⟩
  apply mergeAncestors_exact (slot top block) (slot_ge block) inTree
    (settled_erase inv isLive)
  rintro node ⟨within, -⟩ other remains nested
  obtain ⟨different, old⟩ := (memErase other).1 remains
  exact different (inv.eq_of_mem old isLive
    (nested.mem (within.mem block.first_mem)) block.first_mem)

/-- `buddy_free` on the first page of a live block whose count is zero. -/
theorem free_tree (size_eq : buddy.size = 2 ^ top)
    (inv : TreeInv top buddy.bitmap live) {block : Block}
    (isLive : block ∈ live) (zero : buddy.refCnt block.first = 0) :
    TreeInv top (buddy.free block.first).bitmap (live.erase block) :=
  free_tree_of_mem size_eq inv isLive block.first_mem zero

theorem free_size (pfn : Nat) : (buddy.free pfn).size = buddy.size := by
  unfold free
  split <;> rfl

theorem free_refCnt (pfn : Nat) : (buddy.free pfn).refCnt = buddy.refCnt := by
  unfold free
  split <;> rfl

end Free

/-! ## Reference counts -/

/-- Dropping a count above one only lowers the count. -/
theorem pageRefDec_shared (inv : Inv top buddy live) {pfn : Nat}
    (shared : 1 < buddy.refCnt pfn) :
    (buddy.pageRefDec pfn).bitmap = buddy.bitmap ∧
      (buddy.pageRefDec pfn).refCnt =
        Function.update buddy.refCnt pfn (buddy.refCnt pfn - 1) ∧
      Inv top (buddy.pageRefDec pfn) live := by
  have positive : buddy.refCnt pfn > 0 := by omega
  have remains : buddy.refCnt pfn - 1 ≠ 0 := by omega
  have outcome : buddy.pageRefDec pfn =
      { buddy with
        refCnt := Function.update buddy.refCnt pfn (buddy.refCnt pfn - 1) } := by
    simp [pageRefDec, positive, remains]
  rw [outcome]
  refine ⟨rfl, rfl, inv.size_eq, inv.tree, ?_, ?_⟩
  · intro page
    rw [← inv.counted]
    by_cases here : page = pfn
    · subst here
      simp only [Function.update_self]
      omega
    · simp only [Function.update_of_ne here]
  · intro page
    by_cases here : page = pfn
    · subst here
      simp only [Function.update_self]
      have word := inv.word page
      omega
    · simp only [Function.update_of_ne here]
      exact inv.word page

/-- Dropping the last count of a live block releases it. -/
theorem pageRefDec_last (inv : Inv top buddy live) {block : Block}
    (isLive : block ∈ live) (last : buddy.refCnt block.first = 1) :
    (buddy.pageRefDec block.first).refCnt =
        Function.update buddy.refCnt block.first 0 ∧
      Inv top (buddy.pageRefDec block.first) (live.erase block) := by
  have outcome : buddy.pageRefDec block.first =
      ({ buddy with
          refCnt := Function.update buddy.refCnt block.first 0 } :
        Buddy).free block.first := by
    simp [pageRefDec, last]
  have counts : (buddy.pageRefDec block.first).refCnt =
      Function.update buddy.refCnt block.first 0 := by
    rw [outcome, free_refCnt]
  refine ⟨counts, ?_, ?_, ?_, ?_⟩
  · rw [outcome, free_size]
    exact inv.size_eq
  · rw [outcome]
    refine free_tree ?_ ?_ isLive ?_
    · exact inv.size_eq
    · exact inv.tree
    · exact Function.update_self ..
  · intro page
    rw [counts]
    simp only [inv.tree.nodup.mem_erase_iff]
    by_cases here : page = block.first
    · subst here
      simp only [Function.update_self, Nat.lt_irrefl, false_iff]
      rintro ⟨other, ⟨different, old⟩, firsts⟩
      exact different (inv.tree.eq_of_first old isLive firsts)
    · rw [Function.update_of_ne here, inv.counted]
      constructor
      · rintro ⟨other, old, rfl⟩
        exact ⟨other, ⟨fun same => here (same ▸ rfl), old⟩, rfl⟩
      · rintro ⟨other, ⟨-, old⟩, firsts⟩
        exact ⟨other, old, firsts⟩
  · intro page
    rw [counts]
    by_cases here : page = block.first
    · subst here
      simp [wordModulus]
    · rw [Function.update_of_ne here]
      exact inv.word page

/-- Taking another reference of a live block whose counter does not wrap. -/
theorem getPage_spec (inv : Inv top buddy live) {pfn : Nat}
    (positive : 0 < buddy.refCnt pfn)
    (noWrap : buddy.refCnt pfn + 1 < wordModulus) :
    buddy.getPage pfn =
        (0, { buddy with
          refCnt := Function.update buddy.refCnt pfn (buddy.refCnt pfn + 1) }) ∧
      Inv top (buddy.getPage pfn).2 live := by
  have outcome : buddy.getPage pfn =
      (0, { buddy with
        refCnt := Function.update buddy.refCnt pfn (buddy.refCnt pfn + 1) }) := by
    rw [getPage, if_neg positive.ne', pageRefInc, Nat.mod_eq_of_lt noWrap]
  rw [outcome]
  refine ⟨rfl, inv.size_eq, inv.tree, ?_, ?_⟩
  · intro page
    rw [← inv.counted]
    by_cases here : page = pfn
    · subst here
      simp only [Function.update_self]
      omega
    · simp only [Function.update_of_ne here]
  · intro page
    by_cases here : page = pfn
    · subst here
      simpa only [Function.update_self] using noWrap
    · simp only [Function.update_of_ne here]
      exact inv.word page

end TinyRiscvOs.Mm.Buddy
