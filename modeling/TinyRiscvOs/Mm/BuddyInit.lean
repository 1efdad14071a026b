import TinyRiscvOs.Mm.BuddyAlloc

/-!
# What `buddy_init` reserves

`buddy_init` places its two arrays behind the kernel image and then calls
`buddy_alloc(1)` once for every page below their end.  The calls hand out the
pages in order, so exactly those pages are reserved.
-/

namespace TinyRiscvOs.Mm

open TinyRiscvOs.Lib
open TinyRiscvOs.Lib.Dyadic

/-! ## Addresses -/

/-- `PHY_START`. -/
abbrev phyStart : Nat := 0x80000000

/-- `VM_START`. -/
abbrev vmStart : Nat := 0xffffffe000000000

/-- `PA2VA_OFFSET`. -/
abbrev pa2vaOffset : Nat := vmStart - phyStart

/-- `VA2PA`. -/
def va2pa (va : Nat) : Nat :=
  wordSub va pa2vaOffset

/-- `PFN2PHYS`. -/
def pfn2phys (pfn : Nat) : Nat :=
  (pfn * 4096 + phyStart) % wordModulus

namespace Buddy

/-! ## `buddy_init` -/

/-- `buddy.size` for a memory of `phySize` bytes. -/
def initSize (phySize : Nat) : Nat :=
  let size := phySize / 4096
  if isPowerOf2 size then size else fixsize size

/-- `free_page_start` behind the bitmap and the reference counters. -/
def freePageStart (ekernel size : Nat) : Nat :=
  (ekernel + 2 * size * 8 + size * 8) % wordModulus

/--
The reserving loop from `pfn` on, while the page starts below `bound`.  The
address of a page repeats after `2 ^ 52` pages, so a loop that does not stop
before never stops.
-/
def reserveFrom (bound : Nat) : Nat → Nat → Buddy → Option Buddy
  | 0, _, _ => none
  | fuel + 1, pfn, buddy =>
      if pfn2phys pfn < bound then
        reserveFrom bound fuel (pfn + 1) (buddy.alloc 1).2
      else some buddy

/-- `buddy_init` for `phySize` bytes of memory and a kernel that ends at `ekernel`. -/
def init (phySize ekernel : Nat) : Option Buddy :=
  let size := initSize phySize
  reserveFrom (va2pa (freePageStart ekernel size)) (2 ^ 52 + 1) 0 (fresh size)

/-! ## The reserved pages -/

theorem reserve_succ (count : Nat) (buddy : Buddy) :
    reserve (count + 1) buddy = ((reserve count buddy).alloc 1).2 := by
  induction count generalizing buddy with
  | zero => rfl
  | succ count induction =>
      rw [reserve, induction (buddy.alloc 1).2]
      rfl

/-- The loop makes one call for every page that starts below the bound. -/
theorem reserveFrom_eq {bound used fuel pfn : Nat} (buddy : Buddy)
    (small : used < 2 ^ 52 - 2 ^ 20) (last : bound ≤ used * 4096 + phyStart)
    (before : ∀ other < used, other * 4096 + phyStart < bound)
    (le : pfn ≤ used) (enough : used - pfn < fuel) :
    reserveFrom bound fuel pfn buddy = some (reserve (used - pfn) buddy) := by
  have address : ∀ other ≤ used, pfn2phys other = other * 4096 + phyStart := by
    intro other within
    rw [pfn2phys, Nat.mod_eq_of_lt]
    simp only [phyStart, wordModulus]
    omega
  induction fuel generalizing pfn buddy with
  | zero => omega
  | succ fuel induction =>
      rw [reserveFrom, address pfn le]
      rcases Nat.lt_or_eq_of_le le with inside | rfl
      · rw [if_pos (before pfn inside),
          induction (buddy.alloc 1).2 inside (by omega)]
        have rest : used - pfn = used - (pfn + 1) + 1 := by omega
        rw [rest]
        rfl
      · rw [if_neg (Nat.not_lt.2 last), Nat.sub_self]
        rfl

end Buddy

namespace World

/-- The pages below `used`, handed out one by one. -/
def reserved (used : Nat) : List LiveBlock :=
  (List.range used).reverse.map fun pfn => ⟨pfn, 1⟩

theorem reserved_succ (used : Nat) :
    reserved (used + 1) = ⟨used, 1⟩ :: reserved used := by
  simp [reserved, List.range_succ]

theorem mem_reserved {used : Nat} {block : LiveBlock} :
    block ∈ reserved used ↔ block.first < used ∧ block.length = 1 := by
  simp only [reserved, List.mem_map, List.mem_reverse, List.mem_range]
  constructor
  · rintro ⟨pfn, below, rfl⟩
    exact ⟨below, rfl⟩
  · rintro ⟨below, single⟩
    exact ⟨block.first, below, by rw [← single]⟩

variable {top : Nat}

/-- The calls of the reserving loop hand out the pages from the first one on. -/
theorem reserve_run (small : top < 63) {used : Nat} (within : used ≤ 2 ^ top) :
    Run (Guarded Step CountFits) (fresh top)
        (List.replicate used (.alloc 1))
        ⟨Buddy.reserve used (Buddy.fresh (2 ^ top)), reserved used⟩ ∧
      ∀ pfn, (Buddy.reserve used (Buddy.fresh (2 ^ top))).refCnt pfn =
        if pfn < used then 1 else 0 := by
  induction used with
  | zero => exact ⟨.nil, fun _ => rfl⟩
  | succ used induction =>
      obtain ⟨run, counts⟩ := induction (by omega)
      obtain ⟨⟨live, recorded, inv⟩, -⟩ := run_inv small run
      have freeIff : ∀ pfn, Buddy.FreePage live pfn ↔ used ≤ pfn := by
        intro pfn
        rw [← freePage_iff recorded]
        constructor
        · intro free
          by_contra below
          exact free ⟨pfn, 1⟩ (mem_reserved.2 ⟨Nat.not_le.1 below, rfl⟩)
            ⟨Nat.le_refl _, Nat.lt_succ_self _⟩
        · intro above block member
          have first := (mem_reserved.1 member).1
          have length := (mem_reserved.1 member).2
          omega
      have isFree : Buddy.FreeBlock top live ⟨0, used⟩ := by
        refine ⟨⟨Nat.zero_le _, ?_⟩, fun page member => ?_⟩
        · exact within
        have here : page = used := by
          have interval := Block.mem_iff.1 member
          simp only [Block.first, Block.length, Nat.pow_zero] at interval
          omega
        exact (freeIff page).2 here.ge
      obtain ⟨lowest, lowestFree, least, result, updated, -⟩ :=
        Buddy.alloc_of_freeBlock inv
          (show Buddy.requestSize 1 = 2 ^ 0 from Buddy.requestSize_one) isFree
      have first : Block.first ⟨0, lowest⟩ = lowest := by
        simp [Block.first]
      have isUsed : lowest = used := by
        have upper := least used isFree
        have lower := (freeIff _).1 (lowestFree.2 _ (Block.first_mem _))
        omega
      rw [first, isUsed] at result updated
      have enough := Buddy.enough_of_freeBlock inv isFree
      have admitted : ¬ (Buddy.reserve used
          (Buddy.fresh (2 ^ top))).bitmap 0 < Buddy.requestSize 1 := by
        rw [Buddy.requestSize_one]
        exact Nat.not_lt.2 enough
      have single : Nat.clog 2 1 = 0 := by decide
      constructor
      · have taken : Guarded Step CountFits
            ⟨Buddy.reserve used (Buddy.fresh (2 ^ top)), reserved used⟩
            (.alloc 1) _ := ⟨⟨⟨Nat.le_refl 1, by decide⟩, rfl⟩, trivial⟩
        have step := run.snoc taken
        rw [List.replicate_succ', reserved_succ, Buddy.reserve_succ]
        simp only [apply, admitted, if_false, result, single, Nat.pow_zero]
          at step
        exact step
      · intro pfn
        rw [Buddy.reserve_succ, updated, Function.update_apply, counts]
        split_ifs <;> omega

/-- No reserved page is released. -/
def SparesReserved (used : Nat) (_ : World) : Op → Prop
  | .pageRefDec pfn => used ≤ pfn
  | _ => True

/-- A step of the kernel once `buddy_init` has reserved the pages below `used`. -/
def LaterStep (used : Nat) (world : World) (op : Op) (next : World) : Prop :=
  Guarded Step CountFits world op next ∧ world.SparesReserved used op

/-- Blocks that are not released stay. -/
theorem live_of_later {used : Nat} {world next : World} {op : Op}
    (taken : LaterStep used world op next) {block : LiveBlock}
    (isReserved : block.first < used) (isLive : block ∈ world.live) :
    block ∈ next.live := by
  obtain ⟨⟨⟨-, rfl⟩, -⟩, spares⟩ := taken
  cases op with
  | alloc nrpages =>
      simp only [apply]
      split
      · exact isLive
      · exact List.mem_cons_of_mem _ isLive
  | getPage pfn => exact isLive
  | pageRefDec pfn =>
      have above : used ≤ pfn := spares
      have different : block.first ≠ pfn := by omega
      simp only [apply]
      split
      · exact List.mem_filter.2 ⟨isLive, by simpa using different⟩
      · exact isLive

/-- After a step nothing reserved is free, and the tree is still consistent. -/
theorem later_inv {used : Nat} {start world : World} {ops : List Op}
    (inv : Inv top start) (reservedLive : ∀ block ∈ reserved used, block ∈ start.live)
    (run : Run (LaterStep used) start ops world) :
    Inv top world ∧ ∀ block ∈ reserved used, block ∈ world.live := by
  refine @Run.invariant _ _ _ _ _ _
    (fun world => Inv top world ∧ ∀ block ∈ reserved used, block ∈ world.live)
    run ⟨inv, reservedLive⟩ ?_
  rintro state event next ⟨stateInv, stateLive⟩ taken
  exact ⟨stateInv.step taken.1, fun block member =>
    live_of_later taken (mem_reserved.1 member).1 (stateLive block member)⟩

/-- A request that succeeds gets pages that were free. -/
theorem alloc_spares {used : Nat} {world : World} (inv : Inv top world)
    (reservedLive : ∀ block ∈ reserved used, block ∈ world.live)
    {nrpages : Nat} (word : nrpages ≤ 2 ^ 63) :
    world.buddy.alloc nrpages = (0, world.buddy) ∨
      used ≤ (world.buddy.alloc nrpages).1 := by
  obtain ⟨live, recorded, inv⟩ := inv
  have rounded := Buddy.requestSize_le word
  by_cases found : ∃ q, Buddy.FreeBlock top live ⟨Nat.clog 2 nrpages, q⟩
  · obtain ⟨q, free⟩ := found
    obtain ⟨lowest, lowestFree, -, result, -⟩ :=
      Buddy.alloc_of_freeBlock inv rounded free
    refine Or.inr ?_
    rw [result]
    by_contra below
    have first := (freePage_iff recorded _).2
      (lowestFree.2 _ (Block.first_mem _))
    exact first ⟨_, 1⟩
      (reservedLive _ (mem_reserved.2 ⟨Nat.not_le.1 below, rfl⟩))
      ⟨Nat.le_refl _, Nat.lt_succ_self _⟩
  · exact Or.inl (Buddy.alloc_of_noFreeBlock inv rounded fun q free =>
      found ⟨q, free⟩)

end World

namespace Buddy

/-- The size of a memory whose page count is a power of two. -/
theorem initSize_eq {phySize top : Nat} (pages : phySize / 4096 = 2 ^ top)
    (word : phySize < wordModulus) : initSize phySize = 2 ^ top := by
  have lt : 2 ^ top < wordModulus := by
    rw [← pages]
    exact (Nat.div_le_self _ _).trans_lt word
  rw [initSize, pages,
    if_pos ((isPowerOf2_iff (Nat.two_pow_pos top) lt).2 ⟨top, rfl⟩)]

/-- A memory of 64-bit size has at most `2 ^ 51` pages when that is a power of two. -/
theorem top_le {phySize top : Nat} (pages : phySize / 4096 = 2 ^ top)
    (word : phySize < wordModulus) : top ≤ 51 := by
  have bound : 2 ^ top < 2 ^ 52 := by
    unfold wordModulus at word
    omega
  have exponents := (Nat.pow_lt_pow_iff_right (by decide)).1 bound
  omega

/-- The loop of `buddy_init` runs over the pages below the end of the arrays. -/
theorem init_eq {phySize kernelEnd top : Nat}
    (pages : phySize / 4096 = 2 ^ top) (word : phySize < wordModulus)
    (kernel : phyStart ≤ kernelEnd)
    (inside : kernelEnd + 2 * 2 ^ top * 8 + 2 ^ top * 8 ≤
      phyStart + 4096 * 2 ^ top) :
    init phySize ((kernelEnd + pa2vaOffset) % wordModulus) =
      some (reserve ((kernelEnd + 2 * 2 ^ top * 8 + 2 ^ top * 8 - phyStart +
        4095) / 4096) (fresh (2 ^ top))) := by
  have few : 2 ^ top ≤ 2 ^ 51 :=
    Nat.pow_le_pow_right (by decide) (top_le pages word)
  have positive : 0 < 2 ^ top := Nat.two_pow_pos top
  have bound : va2pa (freePageStart ((kernelEnd + pa2vaOffset) % wordModulus)
      (2 ^ top)) = kernelEnd + 2 * 2 ^ top * 8 + 2 ^ top * 8 := by
    have whole : freePageStart ((kernelEnd + pa2vaOffset) % wordModulus)
        (2 ^ top) =
        (kernelEnd + 2 * 2 ^ top * 8 + 2 ^ top * 8 + pa2vaOffset) %
          wordModulus := by
      simp only [freePageStart, wordModulus]
      omega
    rw [va2pa, whole]
    refine wordSub_add ?_ (by decide)
    simp only [phyStart, wordModulus] at *
    omega
  rw [init, initSize_eq pages word, bound]
  have lower : phyStart < kernelEnd + 2 * 2 ^ top * 8 + 2 ^ top * 8 := by
    omega
  have upper : kernelEnd + 2 * 2 ^ top * 8 + 2 ^ top * 8 ≤
      phyStart + 4096 * 2 ^ 51 := by
    omega
  generalize kernelEnd + 2 * 2 ^ top * 8 + 2 ^ top * 8 = metadataEnd at lower upper ⊢
  -- The number of pages is the distance from `PHY_START`, rounded up.
  have last : metadataEnd ≤
      (metadataEnd - phyStart + 4095) / 4096 * 4096 + phyStart := by
    omega
  have before : ∀ other < (metadataEnd - phyStart + 4095) / 4096,
      other * 4096 + phyStart < metadataEnd := by
    intro other below
    omega
  have usedSmall : (metadataEnd - phyStart + 4095) / 4096 ≤ 2 ^ 51 := by
    omega
  exact reserveFrom_eq _ (usedSmall.trans_lt (by decide)) last before
    (Nat.zero_le _) (Nat.lt_of_le_of_lt usedSmall (by decide))

end Buddy

/--
For every memory of a power-of-two number of pages, `buddy_init` reserves
exactly the pages up to the end of its arrays, one by one.  As long as none of
them is released, later requests fail with `0` or get other pages.
-/
theorem buddyInit_reserves {phySize kernelEnd top : Nat}
    (pages : phySize / 4096 = 2 ^ top) (word : phySize < wordModulus)
    (kernel : phyStart ≤ kernelEnd)
    (inside : kernelEnd + 2 * 2 ^ top * 8 + 2 ^ top * 8 ≤
      phyStart + 4096 * 2 ^ top) :
    let used := (kernelEnd + 2 * 2 ^ top * 8 + 2 ^ top * 8 - phyStart + 4095) /
      4096
    ∃ buddy, Buddy.init phySize ((kernelEnd + pa2vaOffset) % wordModulus) =
        some buddy ∧
      Run (Guarded World.Step World.CountFits) (World.fresh top)
        (List.replicate used (.alloc 1)) ⟨buddy, World.reserved used⟩ ∧
      World.Consistent top ⟨buddy, World.reserved used⟩ ∧
      (∀ pfn, buddy.refCnt pfn = if pfn < used then 1 else 0) ∧
      0 < used ∧
      ∀ ops world, Run (World.LaterStep used) ⟨buddy, World.reserved used⟩ ops
          world →
        ∀ nrpages ≤ 2 ^ 63,
          world.buddy.alloc nrpages = (0, world.buddy) ∨
            used ≤ (world.buddy.alloc nrpages).1 := by
  intro used
  have small : top < 63 := (Buddy.top_le pages word).trans_lt (by decide)
  have positive : 0 < 2 ^ top := Nat.two_pow_pos top
  have within : used ≤ 2 ^ top := by
    simp only [used, phyStart] at *
    omega
  obtain ⟨run, counts⟩ := World.reserve_run small within
  have inv := (World.run_inv small run).1
  refine ⟨_, Buddy.init_eq pages word kernel inside, run, inv.consistent,
    counts, ?_, ?_⟩
  · simp only [used, phyStart] at *
    omega
  · intro ops world later nrpages request
    obtain ⟨worldInv, reservedLive⟩ :=
      World.later_inv inv (fun _ member => member) later
    exact World.alloc_spares worldInv reservedLive request

/-- 128 MiB of memory and a kernel of two mebibytes and a bit. -/
theorem buddyInit_reserves_128_MiB :
    ∃ buddy, Buddy.init 0x8000000 ((0x80200123 + pa2vaOffset) % wordModulus) =
        some buddy ∧
      buddy.refCnt 704 = 1 ∧ buddy.refCnt 705 = 0 := by
  obtain ⟨buddy, result, -, -, counts, -⟩ :=
    @buddyInit_reserves 0x8000000 0x80200123 15 (by decide) (by decide)
      (by decide) (by decide)
  refine ⟨buddy, result, ?_, ?_⟩
  · rw [counts, if_pos (by decide)]
  · rw [counts, if_neg (by decide)]

end TinyRiscvOs.Mm
