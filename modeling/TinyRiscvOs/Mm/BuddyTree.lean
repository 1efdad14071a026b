import TinyRiscvOs.Lib.Dyadic
import TinyRiscvOs.Mm.RequestSize
import Mathlib.Data.List.Pairwise

/-!
# The buddy bitmap as a function of the live blocks

The bitmap is an implicit binary tree.  A node strictly inside a live block
keeps the value it had when the block was cut out, which is its full length;
every other node holds the length of the largest free block below it.  This
is `nodeValue`, and `TreeInv` says that the bitmap computes it.

The two loops that climb to the root repair one ancestor at a time.  Their
loop invariant is `Settled`: every node that is not a strict ancestor of the
current position already has its value.
-/

namespace TinyRiscvOs.Mm.Buddy

open TinyRiscvOs.Lib.Dyadic

/-- A page that belongs to no live block. -/
def FreePage (live : List Block) (page : Nat) : Prop :=
  ∀ block ∈ live, page ∉ block

instance (live : List Block) : DecidablePred (FreePage live) :=
  fun page => inferInstanceAs (Decidable (∀ block ∈ live, page ∉ block))

/-- A node of the tree below, and different from, a live block. -/
def StrictlyInside (live : List Block) (node : Block) : Prop :=
  ∃ block ∈ live, node.Within block ∧ node.height < block.height

open scoped Classical in
/-- The entry of a node: stale inside a live block, exact elsewhere. -/
noncomputable def nodeValue (live : List Block) (node : Block) : Nat :=
  if StrictlyInside live node then node.length
  else longest (FreePage live) node.height node.offset

theorem nodeValue_inside {live : List Block} {node : Block}
    (inside : StrictlyInside live node) :
    nodeValue live node = node.length :=
  if_pos inside

theorem nodeValue_exact {live : List Block} {node : Block}
    (outside : ¬ StrictlyInside live node) :
    nodeValue live node = longest (FreePage live) node.height node.offset :=
  if_neg outside

/-- A node with a free page is not inside a live block. -/
theorem not_strictlyInside_of_free {live : List Block} {node : Block}
    {page : Nat} (member : page ∈ node) (free : FreePage live page) :
    ¬ StrictlyInside live node := by
  rintro ⟨block, isLive, within, -⟩
  exact free block isLive (within.mem member)

/-- The bitmap of a tree of height `top` computes `nodeValue`. -/
structure TreeInv (top : Nat) (bitmap : Nat → Nat) (live : List Block) :
    Prop where
  inTree : ∀ block ∈ live, InTree top block
  disjoint : live.Pairwise Block.Disjoint
  exact : ∀ node, InTree top node → bitmap (slot top node) = nodeValue live node

namespace TreeInv

variable {top : Nat} {bitmap : Nat → Nat} {live : List Block}

/-- Live blocks that share a page are equal. -/
theorem eq_of_mem (inv : TreeInv top bitmap live) {left right : Block}
    {page : Nat} (leftLive : left ∈ live) (rightLive : right ∈ live)
    (inLeft : page ∈ left) (inRight : page ∈ right) : left = right := by
  by_contra different
  exact inv.disjoint.forall leftLive rightLive different page inLeft inRight

theorem eq_of_first (inv : TreeInv top bitmap live) {left right : Block}
    (leftLive : left ∈ live) (rightLive : right ∈ live)
    (firsts : left.first = right.first) : left = right :=
  inv.eq_of_mem leftLive rightLive left.first_mem
    (firsts ▸ right.first_mem)

theorem nodup (inv : TreeInv top bitmap live) : live.Nodup :=
  inv.disjoint.imp fun disjoint equal => by
    subst equal
    exact disjoint _ (Block.first_mem _) (Block.first_mem _)

/-- A live block is not strictly inside another one. -/
theorem live_not_inside (inv : TreeInv top bitmap live) {block : Block}
    (isLive : block ∈ live) : ¬ StrictlyInside live block := by
  rintro ⟨outer, outerLive, within, smaller⟩
  have same := inv.eq_of_mem isLive outerLive block.first_mem
    (within.mem block.first_mem)
  exact absurd smaller (by simp [same])

/-- The entry of a live block is zero. -/
theorem live_zero (inv : TreeInv top bitmap live) {block : Block}
    (isLive : block ∈ live) : bitmap (slot top block) = 0 := by
  rw [inv.exact block (inv.inTree block isLive),
    nodeValue_exact (inv.live_not_inside isLive), longest_eq_zero_iff]
  exact fun page member free => free block isLive member

/-- The root is exact. -/
theorem root (inv : TreeInv top bitmap live) :
    bitmap 0 = longest (FreePage live) top 0 := by
  have outside : ¬ StrictlyInside live ⟨top, 0⟩ := by
    rintro ⟨block, isLive, -, larger⟩
    exact absurd (inv.inTree block isLive).1 (Nat.not_le.2 larger)
  have rootValue := inv.exact _ InTree.root
  rwa [slot_root, nodeValue_exact outside] at rootValue

end TreeInv

/-! ## One ancestor at a time -/

/-- A node that contains the position and is higher. -/
def StrictAncestor (position node : Block) : Prop :=
  position.Within node ∧ position.height < node.height

/-- Every node that is not a strict ancestor of the position has its value. -/
def Settled (top : Nat) (bitmap : Nat → Nat) (live : List Block)
    (position : Block) : Prop :=
  ∀ node, InTree top node → ¬ StrictAncestor position node →
    bitmap (slot top node) = nodeValue live node

theorem StrictAncestor.of_parent {height offset : Nat} {node : Block}
    (ancestor : StrictAncestor ⟨height, offset⟩ node) :
    node = ⟨height + 1, offset / 2⟩ ∨
      StrictAncestor ⟨height + 1, offset / 2⟩ node := by
  obtain ⟨within, higher⟩ := ancestor
  have toParent : (⟨height, offset⟩ : Block).Within ⟨height + 1, offset / 2⟩ :=
    Block.within_succ_of_child rfl
  have parentWithin : (⟨height + 1, offset / 2⟩ : Block).Within node :=
    Block.within_of_mem higher (toParent.mem (Block.first_mem _))
      (within.mem (Block.first_mem _))
  by_cases level : height + 1 = node.height
  · exact Or.inl (Block.eq_of_within_of_height parentWithin level).symm
  · exact Or.inr ⟨parentWithin, Nat.lt_of_le_of_ne higher level⟩

theorem StrictAncestor.parent {height offset : Nat} :
    StrictAncestor ⟨height, offset⟩ ⟨height + 1, offset / 2⟩ :=
  ⟨Block.within_succ_of_child rfl, Nat.lt_succ_self height⟩

theorem StrictAncestor.step {height offset : Nat} {node : Block}
    (ancestor : StrictAncestor ⟨height + 1, offset / 2⟩ node) :
    StrictAncestor ⟨height, offset⟩ node :=
  ⟨(Block.within_succ_of_child rfl).trans ancestor.1,
    Nat.lt_trans (Nat.lt_succ_self height) ancestor.2⟩

/-- A node that lies in no live block takes its value from its two halves. -/
theorem nodeValue_parent {live : List Block} {height offset : Nat}
    (outside : ∀ block ∈ live, ¬ (⟨height + 1, offset⟩ : Block).Within block) :
    nodeValue live ⟨height + 1, offset⟩ =
      combine height (nodeValue live ⟨height, 2 * offset⟩)
        (nodeValue live ⟨height, 2 * offset + 1⟩) := by
  have childOutside : ∀ child, child / 2 = offset →
      ¬ StrictlyInside live ⟨height, child⟩ := by
    rintro child isChild ⟨block, isLive, within, higher⟩
    have toParent : (⟨height, child⟩ : Block).Within ⟨height + 1, offset⟩ :=
      Block.within_succ_of_child isChild
    exact outside block isLive
      (Block.within_of_mem higher (toParent.mem (Block.first_mem _))
        (within.mem (Block.first_mem _)))
  have parentOutside : ¬ StrictlyInside live ⟨height + 1, offset⟩ :=
    fun ⟨block, isLive, within, _⟩ => outside block isLive within
  rw [nodeValue_exact parentOutside,
    nodeValue_exact (childOutside _ (by omega)),
    nodeValue_exact (childOutside _ (by omega))]
  rfl

section Ancestors

variable {top height offset : Nat} {bitmap : Nat → Nat} {live : List Block}

/-- The two halves of the parent of a settled position have their values. -/
theorem Settled.halves (settled : Settled top bitmap live ⟨height, offset⟩)
    (inTree : InTree top ⟨height, offset⟩) (below : height < top) :
    bitmap (leftLeaf (slot top ⟨height + 1, offset / 2⟩)) =
        nodeValue live ⟨height, 2 * (offset / 2)⟩ ∧
      bitmap (rightLeaf (slot top ⟨height + 1, offset / 2⟩)) =
        nodeValue live ⟨height, 2 * (offset / 2) + 1⟩ := by
  have parentIn := inTree.parent below
  have level : ∀ child, ¬ StrictAncestor ⟨height, offset⟩ ⟨height, child⟩ :=
    fun child ancestor => absurd ancestor.2 (Nat.lt_irrefl _)
  constructor
  · rw [leftLeaf, ← slot_left below]
    exact settled _ (parentIn.child (by omega)) (level _)
  · rw [rightLeaf, ← slot_right below]
    exact settled _ (parentIn.child (by omega)) (level _)

/-- Writing the parent's value settles the parent. -/
theorem Settled.raise (settled : Settled top bitmap live ⟨height, offset⟩)
    (inTree : InTree top ⟨height, offset⟩) (below : height < top)
    {value : Nat}
    (correct : value = nodeValue live ⟨height + 1, offset / 2⟩) :
    Settled top
      (Function.update bitmap (slot top ⟨height + 1, offset / 2⟩) value)
      live ⟨height + 1, offset / 2⟩ := by
  intro node nodeIn notAncestor
  by_cases same : node = ⟨height + 1, offset / 2⟩
  · rw [same, Function.update_self, correct]
  · have slots : slot top node ≠ slot top ⟨height + 1, offset / 2⟩ :=
      fun equal => same (slot_injective nodeIn (inTree.parent below) equal)
    rw [Function.update_of_ne slots]
    apply settled node nodeIn
    intro ancestor
    exact (ancestor.of_parent).elim same notAncestor

/-- At the root nothing is left to settle. -/
theorem Settled.at_root (settled : Settled top bitmap live ⟨top, offset⟩)
    (node : Block) (nodeIn : InTree top node) :
    bitmap (slot top node) = nodeValue live node :=
  settled node nodeIn fun ancestor =>
    absurd nodeIn.1 (Nat.not_le.2 ancestor.2)

theorem slot_ge (node : Block) : top - node.height ≤ slot top node := by
  have bound := Nat.lt_two_pow_self (n := top - node.height)
  simp only [slot]
  omega

/-- The closing loop of `buddy_alloc` settles every ancestor that is not full. -/
theorem lowerAncestors_exact (fuel : Nat) (enough : top - height ≤ fuel)
    (inTree : InTree top ⟨height, offset⟩)
    (settled : Settled top bitmap live ⟨height, offset⟩)
    (outside : ∀ node, StrictAncestor ⟨height, offset⟩ node →
      (∀ block ∈ live, ¬ node.Within block) ∧ ¬ AllFree (FreePage live) node) :
    ∀ node, InTree top node →
      lowerAncestors fuel (slot top ⟨height, offset⟩) bitmap
        (slot top node) = nodeValue live node := by
  induction fuel generalizing height offset bitmap with
  | zero =>
      have atTop : height = top := by
        have bound : height ≤ top := inTree.1
        omega
      subst atTop
      exact fun node nodeIn => settled.at_root node nodeIn
  | succ fuel induction =>
      by_cases atTop : height = top
      · subst atTop
        have isRoot := inTree.offset_zero
        subst isRoot
        simp only [lowerAncestors, slot_root, ne_eq, not_true, if_false]
        exact fun node nodeIn => settled.at_root node nodeIn
      · have below : height < top := by
          have bound : height ≤ top := inTree.1
          omega
        have positive : slot top ⟨height, offset⟩ ≠ 0 :=
          Nat.pos_iff_ne_zero.1 (slot_pos below)
        have parentSlot :
            parent (slot top ⟨height, offset⟩) =
              slot top ⟨height + 1, offset / 2⟩ := slot_parent below
        have halves := settled.halves inTree below
        obtain ⟨parentOutside, parentNotFree⟩ := outside _ StrictAncestor.parent
        have parentValue := nodeValue_parent parentOutside
        have notInside : ¬ StrictlyInside live ⟨height + 1, offset / 2⟩ :=
          fun ⟨block, isLive, within, _⟩ => parentOutside block isLive within
        -- The parent is not full, so the merge rule is the maximum.
        have notFull : nodeValue live ⟨height + 1, offset / 2⟩ ≠ 2 ^ (height + 1) := by
          rw [nodeValue_exact notInside, ne_eq, longest_eq_pow_iff]
          exact parentNotFree
        have maximum :
            max (bitmap (leftLeaf (slot top ⟨height + 1, offset / 2⟩)))
                (bitmap (rightLeaf (slot top ⟨height + 1, offset / 2⟩))) =
              nodeValue live ⟨height + 1, offset / 2⟩ := by
          rw [parentValue] at notFull ⊢
          rw [halves.1, halves.2]
          unfold combine at notFull ⊢
          split at notFull
          · exact absurd rfl notFull
          · next unequal => rw [if_neg unequal]
        simp only [lowerAncestors, ne_eq, positive, not_false_eq_true, if_true,
          parentSlot]
        exact induction (by omega) (inTree.parent below)
          (settled.raise inTree below maximum)
          (fun node ancestor => outside node ancestor.step)

/-- The second loop of `buddy_free` settles every ancestor outside live blocks. -/
theorem mergeAncestors_exact (fuel : Nat) (enough : top - height ≤ fuel)
    (inTree : InTree top ⟨height, offset⟩)
    (settled : Settled top bitmap live ⟨height, offset⟩)
    (outside : ∀ node, StrictAncestor ⟨height, offset⟩ node →
      ∀ block ∈ live, ¬ node.Within block) :
    ∀ node, InTree top node →
      mergeAncestors fuel (slot top ⟨height, offset⟩) (2 ^ height) bitmap
        (slot top node) = nodeValue live node := by
  induction fuel generalizing height offset bitmap with
  | zero =>
      have atTop : height = top := by
        have bound : height ≤ top := inTree.1
        omega
      subst atTop
      exact fun node nodeIn => settled.at_root node nodeIn
  | succ fuel induction =>
      by_cases atTop : height = top
      · subst atTop
        have isRoot := inTree.offset_zero
        subst isRoot
        simp only [mergeAncestors, slot_root, ne_eq, not_true, if_false]
        exact fun node nodeIn => settled.at_root node nodeIn
      · have below : height < top := by
          have bound : height ≤ top := inTree.1
          omega
        have positive : slot top ⟨height, offset⟩ ≠ 0 :=
          Nat.pos_iff_ne_zero.1 (slot_pos below)
        have parentSlot :
            parent (slot top ⟨height, offset⟩) =
              slot top ⟨height + 1, offset / 2⟩ := slot_parent below
        have halves := settled.halves inTree below
        have merged :
            (if bitmap (leftLeaf (slot top ⟨height + 1, offset / 2⟩)) +
                  bitmap (rightLeaf (slot top ⟨height + 1, offset / 2⟩)) =
                2 ^ (height + 1) then 2 ^ (height + 1)
              else max (bitmap (leftLeaf (slot top ⟨height + 1, offset / 2⟩)))
                (bitmap (rightLeaf (slot top ⟨height + 1, offset / 2⟩)))) =
              nodeValue live ⟨height + 1, offset / 2⟩ := by
          rw [nodeValue_parent (outside _ StrictAncestor.parent), halves.1,
            halves.2]
          rfl
        have doubled : 2 ^ height * 2 = 2 ^ (height + 1) := (Nat.pow_succ 2 height).symm
        simp only [mergeAncestors, ne_eq, positive, not_false_eq_true, if_true,
          parentSlot, doubled]
        exact induction (by omega) (inTree.parent below)
          (settled.raise inTree below merged)
          (fun node ancestor => outside node ancestor.step)

end Ancestors

end TinyRiscvOs.Mm.Buddy
