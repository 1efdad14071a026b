import Mathlib.Algebra.Group.Nat.Defs
import Mathlib.Logic.Function.Basic
import Mathlib.Data.Nat.Log

/-!
# The buddy allocator of `mm.c`

The two arrays of `struct buddy` are functions from indices to 64-bit words.
The indices of an array that exists do not wrap and are plain naturals; the
arithmetic of `fixsize`, the bounds of the bitmap loop, the page number that
`buddy_alloc` computes and the reference counters wrap at `2 ^ 64` as in the
source.

Every loop of the source is a structural recursion on a fuel argument.  The
walks towards the root get the index itself, which the parent map decreases;
the descent gets `size + 1`, more than the number of halvings of `node_size`.
-/

namespace TinyRiscvOs.Mm

/-- `uint64_t` arithmetic is modulo this number. -/
abbrev wordModulus : Nat := 2 ^ 64

/-- Subtraction of `uint64_t` values. -/
def wordSub (left right : Nat) : Nat :=
  if right ≤ left then left - right else left + wordModulus - right

theorem wordSub_of_le {left right : Nat} (ordered : right ≤ left) :
    wordSub left right = left - right :=
  if_pos ordered

/-- Subtracting an offset undoes adding it. -/
theorem wordSub_add {value offset : Nat} (small : value < wordModulus)
    (offsetSmall : offset < wordModulus) :
    wordSub ((value + offset) % wordModulus) offset = value := by
  unfold wordSub wordModulus at *
  split <;> omega

/-- `struct buddy`. -/
structure Buddy where
  size : Nat
  bitmap : Nat → Nat
  refCnt : Nat → Nat

/-- `LEFT_LEAF(index)`. -/
def leftLeaf (index : Nat) : Nat :=
  index * 2 + 1

/-- `RIGHT_LEAF(index)`. -/
def rightLeaf (index : Nat) : Nat :=
  index * 2 + 2

/-- `PARENT(index)`, used for a positive index only. -/
def parent (index : Nat) : Nat :=
  (index + 1) / 2 - 1

/-- `IS_POWER_OF_2(x)`: the test also accepts `0`. -/
def isPowerOf2 (x : Nat) : Bool :=
  x &&& ((x + (wordModulus - 1)) % wordModulus) == 0

/-- `fixsize`: decrement, smear the top bit downwards, increment. -/
def fixsize (size : Nat) : Nat :=
  let size := (size + (wordModulus - 1)) % wordModulus
  let size := size ||| size >>> 1
  let size := size ||| size >>> 2
  let size := size ||| size >>> 4
  let size := size ||| size >>> 8
  let size := size ||| size >>> 16
  let size := size ||| size >>> 32
  (size + 1) % wordModulus

namespace Buddy

/-- The bitmap loop of `buddy_init`; `bound` is the loop bound `2 * size - 1`. -/
def initBitmap (bound : Nat) : Nat → Nat → Nat → (Nat → Nat) → (Nat → Nat)
  | 0, _, _, bitmap => bitmap
  | fuel + 1, i, nodeSize, bitmap =>
      if i < bound then
        let nodeSize := if isPowerOf2 (i + 1) then nodeSize / 2 else nodeSize
        initBitmap bound fuel (i + 1) nodeSize
          (Function.update bitmap i nodeSize)
      else bitmap

/-- The loop bound `2 * buddy.size - 1` in 64-bit arithmetic. -/
def bitmapBound (size : Nat) : Nat :=
  (2 * size % wordModulus + (wordModulus - 1)) % wordModulus

/-- The allocator after the bitmap loop of `buddy_init`, over cleared arrays. -/
def fresh (size : Nat) : Buddy where
  size := size
  bitmap :=
    initBitmap (bitmapBound size) (2 * size) 0 (size * 2 % wordModulus)
      fun _ => 0
  refCnt := fun _ => 0

/-! ## Allocation -/

/-- The first conditional of `buddy_alloc`: the request as a power of two. -/
def requestSize (nrpages : Nat) : Nat :=
  if nrpages = 0 then 1
  else if isPowerOf2 nrpages then nrpages
  else fixsize nrpages

/-- The descent loop of `buddy_alloc`; the result is `(index, node_size)`. -/
def descend (bitmap : Nat → Nat) (nrpages : Nat) :
    Nat → Nat → Nat → Nat × Nat
  | 0, index, nodeSize => (index, nodeSize)
  | fuel + 1, index, nodeSize =>
      if nodeSize ≠ nrpages then
        if bitmap (leftLeaf index) ≥ nrpages then
          descend bitmap nrpages fuel (leftLeaf index) (nodeSize / 2)
        else
          descend bitmap nrpages fuel (rightLeaf index) (nodeSize / 2)
      else (index, nodeSize)

/-- The closing loop of `buddy_alloc`: ancestors take the larger child. -/
def lowerAncestors : Nat → Nat → (Nat → Nat) → (Nat → Nat)
  | 0, _, bitmap => bitmap
  | fuel + 1, index, bitmap =>
      if index ≠ 0 then
        let index := parent index
        lowerAncestors fuel index
          (Function.update bitmap index
            (max (bitmap (leftLeaf index)) (bitmap (rightLeaf index))))
      else bitmap

/-- `buddy_alloc`: the first page frame number, `0` on failure. -/
def alloc (buddy : Buddy) (nrpages : Nat) : Nat × Buddy :=
  let nrpages := requestSize nrpages
  if buddy.bitmap 0 < nrpages then (0, buddy)
  else
    let (index, nodeSize) :=
      descend buddy.bitmap nrpages (buddy.size + 1) 0 buddy.size
    let bitmap := Function.update buddy.bitmap index 0
    let pfn := wordSub ((index + 1) * nodeSize) buddy.size
    (pfn,
      { buddy with
        bitmap := lowerAncestors index index bitmap
        refCnt := Function.update buddy.refCnt pfn 1 })

/-! ## Release -/

/-- First loop of `buddy_free`: climb to the first zero entry. -/
def climb (bitmap : Nat → Nat) : Nat → Nat → Nat → Nat × Nat
  | 0, index, nodeSize => (index, nodeSize)
  | fuel + 1, index, nodeSize =>
      if bitmap index ≠ 0 then
        let nodeSize := nodeSize * 2
        if index = 0 then (index, nodeSize)
        else climb bitmap fuel (parent index) nodeSize
      else (index, nodeSize)

/-- Second loop of `buddy_free`: merge buddies on the way to the root. -/
def mergeAncestors : Nat → Nat → Nat → (Nat → Nat) → (Nat → Nat)
  | 0, _, _, bitmap => bitmap
  | fuel + 1, index, nodeSize, bitmap =>
      if index ≠ 0 then
        let index := parent index
        let nodeSize := nodeSize * 2
        let leftLongest := bitmap (leftLeaf index)
        let rightLongest := bitmap (rightLeaf index)
        mergeAncestors fuel index nodeSize
          (Function.update bitmap index
            (if leftLongest + rightLongest = nodeSize then nodeSize
            else max leftLongest rightLongest))
      else bitmap

/-- `buddy_free`. -/
def free (buddy : Buddy) (pfn : Nat) : Buddy :=
  if buddy.refCnt pfn ≠ 0 then buddy
  else
    let leaf := pfn + buddy.size - 1
    let (index, nodeSize) := climb buddy.bitmap (leaf + 1) leaf 1
    { buddy with
      bitmap :=
        mergeAncestors index index nodeSize
          (Function.update buddy.bitmap index nodeSize) }

/-! ## Reference counts -/

/-- `page_ref_inc`. -/
def pageRefInc (buddy : Buddy) (pfn : Nat) : Buddy :=
  { buddy with
    refCnt :=
      Function.update buddy.refCnt pfn
        ((buddy.refCnt pfn + 1) % wordModulus) }

/-- `page_ref_dec`. -/
def pageRefDec (buddy : Buddy) (pfn : Nat) : Buddy :=
  let buddy :=
    if buddy.refCnt pfn > 0 then
      { buddy with
        refCnt := Function.update buddy.refCnt pfn (buddy.refCnt pfn - 1) }
    else buddy
  if buddy.refCnt pfn = 0 then buddy.free pfn else buddy

/-- `get_page` on the page of a frame number: `1` reports an unallocated page. -/
def getPage (buddy : Buddy) (pfn : Nat) : Nat × Buddy :=
  if buddy.refCnt pfn = 0 then (1, buddy) else (0, buddy.pageRefInc pfn)

/-- `put_page` on the page of a frame number. -/
def putPage (buddy : Buddy) (pfn : Nat) : Buddy :=
  buddy.pageRefDec pfn

/-- The reserving loop of `buddy_init`: one single-page allocation per page in use. -/
def reserve : Nat → Buddy → Buddy
  | 0, buddy => buddy
  | pages + 1, buddy => reserve pages (buddy.alloc 1).2

end Buddy

end TinyRiscvOs.Mm
