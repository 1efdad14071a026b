import Mathlib.Data.Nat.Log
import Mathlib.Order.Bounds.Basic
import Mathlib.Tactic.Ring

/-!
# Dyadic blocks and the largest free block below a node

A dyadic block of height `h` is an aligned run of `2 ^ h` cells.  Two dyadic
blocks are either nested or disjoint, and a block of height `h + 1` is the
disjoint union of its two halves.

`longest free h o` is the length of the largest dyadic block of cells
satisfying `free` inside the block of height `h` and offset `o`.  It is
computed by the merge rule of a buddy tree, and
`longest_isGreatest` identifies it with the greatest element of the set of
those lengths.
-/

namespace TinyRiscvOs.Lib.Dyadic

/-- The aligned run of `2 ^ height` cells starting at `offset * 2 ^ height`. -/
structure Block where
  height : Nat
  offset : Nat
deriving DecidableEq, Repr

namespace Block

/-- Number of cells of a block. -/
def length (block : Block) : Nat :=
  2 ^ block.height

/-- First cell of a block. -/
def first (block : Block) : Nat :=
  block.offset * 2 ^ block.height

/-- A cell lies in a block when the quotient by its length is its offset. -/
def Mem (block : Block) (cell : Nat) : Prop :=
  cell / 2 ^ block.height = block.offset

instance : Membership Nat Block where
  mem := Mem

instance (block : Block) (cell : Nat) : Decidable (cell ∈ block) :=
  inferInstanceAs (Decidable (cell / 2 ^ block.height = block.offset))

theorem mem_def {block : Block} {cell : Nat} :
    cell ∈ block ↔ cell / 2 ^ block.height = block.offset :=
  Iff.rfl

theorem length_pos (block : Block) : 0 < block.length :=
  Nat.two_pow_pos block.height

/-- Interval form of membership. -/
theorem mem_iff {block : Block} {cell : Nat} :
    cell ∈ block ↔
      block.first ≤ cell ∧ cell < block.first + block.length := by
  have positive : 0 < 2 ^ block.height := Nat.two_pow_pos block.height
  rw [mem_def, Nat.div_eq_iff positive]
  unfold first length
  omega

@[simp]
theorem first_mem (block : Block) : block.first ∈ block := by
  rw [mem_def, first, Nat.mul_div_cancel _ (Nat.two_pow_pos block.height)]

/-- `inner` is one of the dyadic blocks that make up `outer`. -/
def Within (inner outer : Block) : Prop :=
  inner.height ≤ outer.height ∧
    inner.offset / 2 ^ (outer.height - inner.height) = outer.offset

theorem Within.refl (block : Block) : block.Within block := by
  simp [Within]

private theorem div_pow_div_pow {cell low high : Nat} (ordered : low ≤ high) :
    cell / 2 ^ low / 2 ^ (high - low) = cell / 2 ^ high := by
  rw [Nat.div_div_eq_div_mul, ← Nat.pow_add, Nat.add_sub_cancel' ordered]

theorem Within.mem {inner outer : Block} {cell : Nat}
    (within : inner.Within outer) (member : cell ∈ inner) :
    cell ∈ outer := by
  rw [mem_def] at member ⊢
  rw [← within.2, ← member, div_pow_div_pow within.1]

/-- A shared cell decides which of two blocks is nested in the other. -/
theorem within_of_mem {inner outer : Block} {cell : Nat}
    (ordered : inner.height ≤ outer.height)
    (innerMember : cell ∈ inner) (outerMember : cell ∈ outer) :
    inner.Within outer := by
  rw [mem_def] at innerMember outerMember
  refine ⟨ordered, ?_⟩
  rw [← innerMember, ← outerMember, div_pow_div_pow ordered]

theorem within_iff_first_mem {inner outer : Block}
    (ordered : inner.height ≤ outer.height) :
    inner.Within outer ↔ inner.first ∈ outer :=
  ⟨fun within => within.mem inner.first_mem,
    fun member => within_of_mem ordered inner.first_mem member⟩

theorem Within.trans {inner middle outer : Block}
    (first : inner.Within middle) (second : middle.Within outer) :
    inner.Within outer :=
  within_of_mem (first.1.trans second.1) inner.first_mem
    (second.mem (first.mem inner.first_mem))

theorem eq_of_within_of_height {inner outer : Block}
    (within : inner.Within outer) (heights : inner.height = outer.height) :
    inner = outer := by
  obtain ⟨innerHeight, innerOffset⟩ := inner
  obtain ⟨outerHeight, outerOffset⟩ := outer
  simp only at heights
  subst heights
  simpa [Within] using within.2

/-- Disjointness of two blocks, cell by cell. -/
def Disjoint (left right : Block) : Prop :=
  ∀ cell, cell ∈ left → cell ∉ right

theorem Disjoint.symm {left right : Block} (disjoint : left.Disjoint right) :
    right.Disjoint left :=
  fun cell inRight inLeft => disjoint cell inLeft inRight

instance : Std.Symm Disjoint where
  symm _ _ := Disjoint.symm

/-- Left half of the block of height `height + 1` and offset `offset`. -/
theorem mem_succ_iff {height offset cell : Nat} :
    cell ∈ (⟨height + 1, offset⟩ : Block) ↔
      cell ∈ (⟨height, 2 * offset⟩ : Block) ∨
        cell ∈ (⟨height, 2 * offset + 1⟩ : Block) := by
  simp only [mem_def]
  rw [Nat.pow_succ, ← Nat.div_div_eq_div_mul]
  omega

theorem within_succ_of_child {height offset child : Nat}
    (isChild : child / 2 = offset) :
    (⟨height, child⟩ : Block).Within ⟨height + 1, offset⟩ := by
  simpa [Within] using isChild

/-- A block strictly below a node lies in one of the node's two halves. -/
theorem Within.child {inner : Block} {height offset : Nat}
    (within : inner.Within ⟨height + 1, offset⟩)
    (below : inner.height ≤ height) :
    inner.Within ⟨height, 2 * offset⟩ ∨
      inner.Within ⟨height, 2 * offset + 1⟩ := by
  rcases mem_succ_iff.mp (within.mem inner.first_mem) with left | right
  · exact Or.inl ((within_iff_first_mem below).2 left)
  · exact Or.inr ((within_iff_first_mem below).2 right)

end Block

/-! ## The largest free block below a node -/

/-- The merge rule of a buddy tree for two halves of a block of height `height + 1`. -/
def combine (height left right : Nat) : Nat :=
  if left + right = 2 ^ (height + 1) then 2 ^ (height + 1) else max left right

section Longest

variable (free : Nat → Prop) [DecidablePred free]

/-- Length of the largest free dyadic block inside a node, `0` when there is none. -/
def longest : Nat → Nat → Nat
  | 0, offset => if free offset then 1 else 0
  | height + 1, offset =>
      combine height (longest height (2 * offset))
        (longest height (2 * offset + 1))

/-- Every cell of a block is free. -/
def AllFree (block : Block) : Prop :=
  ∀ cell ∈ block, free cell

theorem longest_le (height offset : Nat) :
    longest free height offset ≤ 2 ^ height := by
  induction height generalizing offset with
  | zero =>
      simp only [longest]
      split <;> simp
  | succ height induction =>
      have left := induction (2 * offset)
      have right := induction (2 * offset + 1)
      simp only [longest, combine]
      split <;> omega

variable {free}

/-- A node is full exactly when all of its cells are free. -/
theorem longest_eq_pow_iff (height offset : Nat) :
    longest free height offset = 2 ^ height ↔
      AllFree free ⟨height, offset⟩ := by
  induction height generalizing offset with
  | zero => simp [longest, AllFree, Block.mem_def]
  | succ height induction =>
      have positive : 0 < 2 ^ height := Nat.two_pow_pos height
      have leftLe := longest_le free height (2 * offset)
      have rightLe := longest_le free height (2 * offset + 1)
      have halves :
          longest free (height + 1) offset = 2 ^ (height + 1) ↔
            longest free height (2 * offset) = 2 ^ height ∧
              longest free height (2 * offset + 1) = 2 ^ height := by
        simp only [longest, combine]
        split <;> omega
      rw [halves, induction, induction]
      constructor
      · rintro ⟨left, right⟩ cell member
        rcases Block.mem_succ_iff.mp member with inLeft | inRight
        · exact left cell inLeft
        · exact right cell inRight
      · intro all
        exact ⟨fun cell member => all cell (Block.mem_succ_iff.2 (Or.inl member)),
          fun cell member => all cell (Block.mem_succ_iff.2 (Or.inr member))⟩

/-- A node that is not full takes the larger of its halves. -/
theorem longest_succ_of_not_allFree {height offset : Nat}
    (notAll : ¬ AllFree free ⟨height + 1, offset⟩) :
    longest free (height + 1) offset =
      max (longest free height (2 * offset))
        (longest free height (2 * offset + 1)) := by
  have notFull : longest free (height + 1) offset ≠ 2 ^ (height + 1) :=
    (longest_eq_pow_iff (height + 1) offset).not.2 notAll
  simp only [longest, combine] at notFull ⊢
  split
  · next full => exact absurd (if_pos full) notFull
  · rfl

theorem longest_eq_zero_iff (height offset : Nat) :
    longest free height offset = 0 ↔
      ∀ cell ∈ (⟨height, offset⟩ : Block), ¬ free cell := by
  induction height generalizing offset with
  | zero => simp [longest, Block.mem_def]
  | succ height induction =>
      have positive : 0 < 2 ^ height := Nat.two_pow_pos height
      have halves :
          longest free (height + 1) offset = 0 ↔
            longest free height (2 * offset) = 0 ∧
              longest free height (2 * offset + 1) = 0 := by
        simp only [longest, combine]
        split <;> omega
      rw [halves, induction, induction]
      constructor
      · rintro ⟨left, right⟩ cell member
        rcases Block.mem_succ_iff.mp member with inLeft | inRight
        · exact left cell inLeft
        · exact right cell inRight
      · intro none
        exact ⟨fun cell member => none cell (Block.mem_succ_iff.2 (Or.inl member)),
          fun cell member => none cell (Block.mem_succ_iff.2 (Or.inr member))⟩

/-- A free block inside a node bounds the node from below. -/
theorem length_le_longest {block : Block} (height offset : Nat)
    (within : block.Within ⟨height, offset⟩) (all : AllFree free block) :
    block.length ≤ longest free height offset := by
  induction height generalizing offset with
  | zero =>
      have same : block = ⟨0, offset⟩ :=
        Block.eq_of_within_of_height within (Nat.le_zero.mp within.1)
      subst same
      exact ((longest_eq_pow_iff 0 offset).2 all).ge
  | succ height induction =>
      by_cases top : block.height = height + 1
      · have same := Block.eq_of_within_of_height within top
        subst same
        exact ((longest_eq_pow_iff (height + 1) offset).2 all).ge
      · have below : block.height ≤ height := by
          have bound : block.height ≤ height + 1 := within.1
          omega
        have leftLe := longest_le free height (2 * offset)
        have rightLe := longest_le free height (2 * offset + 1)
        simp only [longest, combine]
        rcases within.child below with inLeft | inRight
        · have bound := induction _ inLeft
          split <;> omega
        · have bound := induction _ inRight
          split <;> omega

/-- The value at a node is attained by a free block unless it is zero. -/
theorem exists_block_of_longest_pos {height offset : Nat}
    (positive : 0 < longest free height offset) :
    ∃ block : Block, block.Within ⟨height, offset⟩ ∧ AllFree free block ∧
      block.length = longest free height offset := by
  induction height generalizing offset with
  | zero =>
      refine ⟨⟨0, offset⟩, Block.Within.refl _, ?_⟩
      have full : longest free 0 offset = 2 ^ 0 := by
        have bound := longest_le free 0 offset
        omega
      exact ⟨(longest_eq_pow_iff 0 offset).1 full, full.symm⟩
  | succ height induction =>
      by_cases all : AllFree free ⟨height + 1, offset⟩
      · exact ⟨⟨height + 1, offset⟩, Block.Within.refl _, all,
          ((longest_eq_pow_iff _ _).2 all).symm⟩
      · rw [longest_succ_of_not_allFree all] at positive ⊢
        rcases Nat.le_total (longest free height (2 * offset + 1))
            (longest free height (2 * offset)) with ordered | ordered
        · rw [Nat.max_eq_left ordered] at positive ⊢
          obtain ⟨block, within, free, length⟩ := induction positive
          exact ⟨block,
            within.trans (Block.within_succ_of_child (by omega)), free, length⟩
        · rw [Nat.max_eq_right ordered] at positive ⊢
          obtain ⟨block, within, free, length⟩ := induction positive
          exact ⟨block,
            within.trans (Block.within_succ_of_child (by omega)), free, length⟩

/-- Lengths of the free dyadic blocks inside a node. -/
def freeLengths (free : Nat → Prop) (node : Block) : Set Nat :=
  { size | ∃ block : Block,
      block.Within node ∧ AllFree free block ∧ size = block.length }

/-- `longest` is the greatest free block length, or `0` when no cell is free. -/
theorem longest_isGreatest (height offset : Nat) :
    IsGreatest (insert 0 (freeLengths free ⟨height, offset⟩))
      (longest free height offset) := by
  constructor
  · by_cases zero : longest free height offset = 0
    · rw [zero]
      exact Set.mem_insert _ _
    · obtain ⟨block, within, all, length⟩ :=
        exists_block_of_longest_pos (Nat.pos_of_ne_zero zero)
      exact Set.mem_insert_of_mem _ ⟨block, within, all, length.symm⟩
  · rintro size (rfl | ⟨block, within, all, rfl⟩)
    · exact Nat.zero_le _
    · exact length_le_longest height offset within all

/-- Only the cells of the node matter. -/
theorem longest_congr {other : Nat → Prop} [DecidablePred other]
    {height offset : Nat}
    (agree : ∀ cell ∈ (⟨height, offset⟩ : Block), free cell ↔ other cell) :
    longest free height offset = longest other height offset := by
  induction height generalizing offset with
  | zero =>
      have same : free offset ↔ other offset :=
        agree offset (by simp [Block.mem_def])
      simp only [longest, same]
  | succ height induction =>
      simp only [longest]
      rw [induction fun cell member =>
          agree cell (Block.mem_succ_iff.2 (Or.inl member)),
        induction fun cell member =>
          agree cell (Block.mem_succ_iff.2 (Or.inr member))]

end Longest

/-! ## The array layout of a complete binary tree -/

/--
Index of a node in the level-order array of the complete tree of height
`top`: the root is `0` and the children of `i` are `2 * i + 1` and
`2 * i + 2`.
-/
def slot (top : Nat) (node : Block) : Nat :=
  2 ^ (top - node.height) - 1 + node.offset

/-- The nodes of the complete tree of height `top`. -/
def InTree (top : Nat) (node : Block) : Prop :=
  node.height ≤ top ∧ node.offset < 2 ^ (top - node.height)

section Layout

variable {top height offset : Nat}

private theorem pow_sub_succ (below : height < top) :
    2 ^ (top - height) = 2 * 2 ^ (top - (height + 1)) := by
  rw [← Nat.pow_succ']
  congr 1
  omega

theorem slot_left (below : height < top) :
    slot top ⟨height, 2 * offset⟩ = slot top ⟨height + 1, offset⟩ * 2 + 1 := by
  have positive : 0 < 2 ^ (top - (height + 1)) := Nat.two_pow_pos _
  simp only [slot, pow_sub_succ below]
  omega

theorem slot_right (below : height < top) :
    slot top ⟨height, 2 * offset + 1⟩ =
      slot top ⟨height + 1, offset⟩ * 2 + 2 := by
  have positive : 0 < 2 ^ (top - (height + 1)) := Nat.two_pow_pos _
  simp only [slot, pow_sub_succ below]
  omega

theorem slot_parent (below : height < top) :
    (slot top ⟨height, offset⟩ + 1) / 2 - 1 =
      slot top ⟨height + 1, offset / 2⟩ := by
  have positive : 0 < 2 ^ (top - (height + 1)) := Nat.two_pow_pos _
  simp only [slot, pow_sub_succ below]
  omega

theorem slot_pos (below : height < top) : 0 < slot top ⟨height, offset⟩ := by
  have positive : 0 < 2 ^ (top - (height + 1)) := Nat.two_pow_pos _
  simp only [slot, pow_sub_succ below]
  omega

theorem slot_root : slot top ⟨top, 0⟩ = 0 := by
  simp [slot]

theorem InTree.offset_zero (inTree : InTree top ⟨top, offset⟩) : offset = 0 := by
  have bound := inTree.2
  simp only [Nat.sub_self, Nat.pow_zero] at bound
  omega

theorem InTree.root : InTree top ⟨top, 0⟩ := by
  simp [InTree]

theorem InTree.parent (inTree : InTree top ⟨height, offset⟩)
    (below : height < top) : InTree top ⟨height + 1, offset / 2⟩ := by
  have bound := inTree.2
  refine ⟨below, ?_⟩
  simp only [pow_sub_succ below] at bound
  show offset / 2 < 2 ^ (top - (height + 1))
  omega

theorem InTree.child {child : Nat} (inTree : InTree top ⟨height + 1, offset⟩)
    (isChild : child / 2 = offset) : InTree top ⟨height, child⟩ := by
  have below : height < top := inTree.1
  have bound := inTree.2
  refine ⟨Nat.le_of_lt below, ?_⟩
  simp only [pow_sub_succ below]
  simp only at bound
  omega

/-- Nodes of the tree are told apart by their array index. -/
theorem slot_injective {left right : Block}
    (leftIn : InTree top left) (rightIn : InTree top right)
    (equal : slot top left = slot top right) : left = right := by
  obtain ⟨leftHeight, leftOffset⟩ := left
  obtain ⟨rightHeight, rightOffset⟩ := right
  obtain ⟨leftHeightLe, leftBound⟩ := leftIn
  obtain ⟨rightHeightLe, rightBound⟩ := rightIn
  simp only [slot] at leftHeightLe leftBound rightHeightLe rightBound equal
  have heights : leftHeight = rightHeight := by
    rcases Nat.lt_trichotomy leftHeight rightHeight with lower | same | higher
    · have grow : 2 * 2 ^ (top - rightHeight) ≤ 2 ^ (top - leftHeight) := by
        rw [← Nat.pow_succ']
        exact Nat.pow_le_pow_right (by decide) (by omega)
      omega
    · exact same
    · have grow : 2 * 2 ^ (top - leftHeight) ≤ 2 ^ (top - rightHeight) := by
        rw [← Nat.pow_succ']
        exact Nat.pow_le_pow_right (by decide) (by omega)
      omega
  subst heights
  simp only [Block.mk.injEq, true_and]
  omega

/-- The cells of a node of the tree are cells of the whole run. -/
theorem InTree.lt_of_mem {node : Block} {cell : Nat}
    (inTree : InTree top node) (member : cell ∈ node) : cell < 2 ^ top := by
  have positive : 0 < 2 ^ node.height := Nat.two_pow_pos _
  have upper : cell < (node.offset + 1) * 2 ^ node.height :=
    (Nat.div_lt_iff_lt_mul positive).1 (by
      rw [Block.mem_def.1 member]
      exact Nat.lt_succ_self _)
  have total : 2 ^ top = 2 ^ (top - node.height) * 2 ^ node.height := by
    rw [← Nat.pow_add, Nat.sub_add_cancel inTree.1]
  have rows : (node.offset + 1) * 2 ^ node.height ≤
      2 ^ (top - node.height) * 2 ^ node.height :=
    Nat.mul_le_mul_right _ inTree.2
  omega

/-- The blocks inside a node of the tree are nodes of the tree. -/
theorem InTree.of_within {inner outer : Block} (inTree : InTree top outer)
    (within : inner.Within outer) : InTree top inner := by
  refine ⟨within.1.trans inTree.1, ?_⟩
  have total : 2 ^ (top - inner.height) =
      2 ^ (top - outer.height) * 2 ^ (outer.height - inner.height) := by
    rw [← Nat.pow_add]
    congr 1
    have lower := within.1
    have upper := inTree.1
    omega
  rw [total, ← Nat.div_lt_iff_lt_mul (Nat.two_pow_pos _), within.2]
  exact inTree.2

/-- Every node of the tree lies below the root. -/
theorem InTree.within_root {node : Block} (inTree : InTree top node) :
    node.Within ⟨top, 0⟩ := by
  refine ⟨inTree.1, ?_⟩
  exact Nat.div_eq_of_lt inTree.2

/-- The slots of a tree are the indices below `2 ^ (top + 1) - 1`. -/
theorem slot_lt {node : Block} (inTree : InTree top node) :
    slot top node < 2 ^ (top + 1) - 1 := by
  have rows : 2 ^ (top - node.height) ≤ 2 ^ top :=
    Nat.pow_le_pow_right (by decide) (Nat.sub_le ..)
  have bound : node.offset < 2 ^ (top - node.height) := inTree.2
  have doubled : 2 ^ (top + 1) = 2 * 2 ^ top := Nat.pow_succ'
  simp only [slot]
  omega

theorem exists_slot {index : Nat} (bound : index < 2 ^ (top + 1) - 1) :
    ∃ node, InTree top node ∧ slot top node = index := by
  have lower : 2 ^ Nat.log2 (index + 1) ≤ index + 1 :=
    Nat.log2_self_le (Nat.succ_ne_zero index)
  have upper := Nat.lt_log2_self (n := index + 1)
  have doubled : 2 ^ (Nat.log2 (index + 1) + 1) =
      2 * 2 ^ Nat.log2 (index + 1) := Nat.pow_succ'
  have depth : Nat.log2 (index + 1) ≤ top := by
    have strict : 2 ^ Nat.log2 (index + 1) < 2 ^ (top + 1) := by omega
    have exponents := (Nat.pow_lt_pow_iff_right (by decide)).1 strict
    omega
  refine ⟨⟨top - Nat.log2 (index + 1), index + 1 - 2 ^ Nat.log2 (index + 1)⟩,
    ⟨Nat.sub_le .., ?_⟩, ?_⟩
  · simp only [Nat.sub_sub_self depth]
    omega
  · simp only [slot, Nat.sub_sub_self depth]
    omega

end Layout

end TinyRiscvOs.Lib.Dyadic
