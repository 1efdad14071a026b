import TinyRiscvOs.Lib.RadixForest
import TinyRiscvOs.Vm.Machine

/-!
# Page tables as a forest

The words of different frames do not interfere, so the tables reached from a
family of roots form a forest of radix tables whose indices are the parts of a
page number.  The module reads `create_mapping` and `find_pte` as walks in this
forest and says once what hanging a new table below an entry changes.
-/

namespace TinyRiscvOs.Vm

open TinyRiscvOs.Lib
open TinyRiscvOs.Mm

/-! ## Words and frames -/

/-- The bytes of a frame are the same in both memories. -/
def SameFrame (mem other : Bytes) (frame : Nat) : Prop :=
  ∀ offset < 4096, other (4096 * frame + offset) = mem (4096 * frame + offset)

theorem SameFrame.refl (mem : Bytes) (frame : Nat) : SameFrame mem mem frame :=
  fun _ _ => rfl

theorem SameFrame.trans {mem middle other : Bytes} {frame : Nat}
    (first : SameFrame mem middle frame) (second : SameFrame middle other frame) :
    SameFrame mem other frame :=
  fun offset inside => (second offset inside).trans (first offset inside)

theorem SameFrame.word {mem other : Bytes} {frame : Nat}
    (same : SameFrame mem other frame) {index : Nat} (small : index < 512) :
    word other frame index = word mem frame index := by
  refine Bytes.littleEndian_congr fun address lower upper => ?_
  have offset : address = 4096 * frame + (address - 4096 * frame) := by omega
  rw [offset]
  exact same _ (by omega)

theorem SameFrame.findTable {mem other : Bytes} {frame : Nat}
    (same : SameFrame mem other frame) {index : Nat} (small : index < 512) :
    findTable other frame index = findTable mem frame index := by
  rw [Vm.findTable, Vm.findTable, same.word small]

theorem word_lt (mem : Bytes) (frame index : Nat) :
    word mem frame index < 2 ^ 64 := by
  have bound := Bytes.littleEndian_lt mem (4096 * frame + 8 * index) 8
  exact bound.trans_eq (by decide)

theorem word_setWord (mem : Bytes) (frame index : Nat) {value : Nat}
    (fits : value < 2 ^ 64) :
    word (setWord mem frame index value) frame index = value := by
  rw [word, setWord, ← Bytes.putLittleEndian_eq_store,
    Bytes.littleEndian_putLittleEndian]
  exact Nat.mod_eq_of_lt (fits.trans_eq (by decide))

theorem word_setWord_of_ne {mem : Bytes} {frame index value other : Nat}
    (different : other ≠ index) :
    word (setWord mem frame index value) frame other = word mem frame other := by
  rw [word, setWord, ← Bytes.putLittleEndian_eq_store]
  exact Bytes.littleEndian_putLittleEndian_of_disjoint (by omega)

theorem sameFrame_setWord {mem : Bytes} {frame index value other : Nat}
    (small : index < 512) (different : other ≠ frame) :
    SameFrame mem (setWord mem frame index value) other := by
  intro offset inside
  rw [setWord, Bytes.store, if_neg (by omega)]

theorem sameFrame_fill {mem : Bytes} {frame other : Nat} {value : Byte}
    (different : other ≠ frame) :
    SameFrame mem (Bytes.fill mem (4096 * frame) value 4096) other := by
  intro offset inside
  exact Bytes.fill_outside (by omega)

theorem word_fill_zero {mem : Bytes} {frame index : Nat} (small : index < 512) :
    word (Bytes.fill mem (4096 * frame) 0 4096) frame index = 0 :=
  Bytes.littleEndian_eq_zero fun _ _ _ =>
    Bytes.fill_inside (by omega) (by omega)

theorem sameFrame_copyFrame {mem : Bytes} {target source other : Nat}
    (different : other ≠ target) :
    SameFrame mem (copyFrame mem target source) other := by
  intro offset inside
  exact Bytes.move_outside (by omega)

theorem copyFrame_apply {mem : Bytes} {target source offset : Nat}
    (inside : offset < 4096) :
    copyFrame mem target source (4096 * target + offset) =
      mem (4096 * source + offset) := by
  rw [copyFrame, Bytes.move_inside (by omega) (by omega) (by omega),
    Nat.add_sub_cancel_left]

theorem word_copyFrame {mem : Bytes} {target source index : Nat}
    (small : index < 512) :
    word (copyFrame mem target source) target index = word mem source index := by
  -- Both numbers are read byte by byte from the same offsets of their frames.
  have shifted : ∀ width offset, offset + width ≤ 4096 →
      Bytes.littleEndian (copyFrame mem target source)
          (4096 * target + offset) width =
        Bytes.littleEndian mem (4096 * source + offset) width := by
    intro width
    induction width with
    | zero => intros; rfl
    | succ width induction =>
        intro offset inside
        have rest := induction (offset + 1) (by omega)
        rw [Bytes.littleEndian, Bytes.littleEndian,
          copyFrame_apply (by omega), Nat.add_assoc, Nat.add_assoc, rest]
  exact shifted 8 (8 * index) (by omega)

/-! ## Page numbers -/

/-- The index of a page number at a level of the tables. -/
def index (level page : Nat) : Nat :=
  page / 512 ^ level % 512

theorem index_lt (level page : Nat) : index level page < 512 :=
  Nat.mod_lt _ (by decide)

theorem vpn_eq_index (level va : Nat) : vpn level va = index level (va / 4096) := by
  have mask : 0x1ff = 2 ^ 9 - 1 := by decide
  have radix : 2 ^ (12 + 9 * level) = 4096 * 512 ^ level := by
    rw [Nat.pow_add, Nat.pow_mul]
  rw [vpn, index, mask, Nat.and_two_pow_sub_one_eq_mod,
    Nat.shiftRight_eq_div_pow, radix, Nat.div_div_eq_div_mul]

/-- The two indices that lead from a root to the last table for a page. -/
def path (page : Nat) : List Nat :=
  [index 2 page, index 1 page]

/-- A page number of 27 bits is determined by its three indices. -/
theorem eq_of_indices {left right : Nat} (leftSmall : left < 2 ^ 27)
    (rightSmall : right < 2 ^ 27) (paths : path left = path right)
    (lasts : index 0 left = index 0 right) : left = right := by
  simp only [path, index, List.cons.injEq, and_true] at paths lasts
  omega

theorem user_page_iff {page : Nat} (small : page < 2 ^ 27) :
    page < 2 ^ 26 ↔ index 2 page < 256 := by
  simp only [index]
  omega

/-- The entry that maps a page: `0` when a table on the way is missing. -/
def leaf (mem : Bytes) (pgtbl page : Nat) : Nat :=
  match walk (findTable mem) pgtbl (path page) with
  | some table => word mem table (index 0 page)
  | none => 0

theorem leaf_of_walk {mem : Bytes} {pgtbl page table : Nat}
    (reached : walk (findTable mem) pgtbl (path page) = some table) :
    leaf mem pgtbl page = word mem table (index 0 page) := by
  rw [leaf, reached]

/-- `find_pte` is the walk to the last table. -/
theorem findPte_eq_walk (mem : Bytes) (pgtbl va : Nat) :
    findPte mem pgtbl va =
      (walk (findTable mem) pgtbl (path (va / 4096))).map fun table =>
        (table, index 0 (va / 4096)) := by
  rw [findPte, vpn_eq_index, vpn_eq_index, vpn_eq_index, path, walk]
  cases findTable mem pgtbl (index 2 (va / 4096)) with
  | none => rfl
  | some pmd =>
      simp only [Option.bind_some, walk, Option.bind_eq_bind]
      cases findTable mem pmd (index 1 (va / 4096)) <;> rfl

theorem findTable_eq_none {mem : Bytes} {table index : Nat} :
    findTable mem table index = none ↔ ¬ has permV (word mem table index) := by
  simp only [findTable, has, ne_eq, Decidable.not_not]
  split <;> simp_all

theorem findTable_eq_some {mem : Bytes} {table index next : Nat} :
    findTable mem table index = some next ↔
      has permV (word mem table index) ∧
        entryPpn (word mem table index) = next := by
  simp only [findTable, has, ne_eq]
  split <;> simp_all

/-! ## Live frames -/

/-- The frame of a page that the allocator has handed out. -/
def Live (m : Machine) (frame : Nat) : Prop :=
  ramBase ≤ frame ∧ 0 < m.buddy.refCnt (frame - ramBase)

/-- The state of the allocator on which page tables rely. -/
structure Allocator (top : Nat) (multi : Set Nat) (m : Machine) : Prop where
  small : top ≤ 25
  pages : m.buddy.Pages top multi
  /-- The first page holds the kernel. -/
  zero_live : 0 < m.buddy.refCnt 0

namespace Allocator

variable {top : Nat} {multi : Set Nat} {m : Machine}

theorem lt_nullFrame (allocator : Allocator top multi m) {frame : Nat}
    (live : Live m frame) : frame < nullFrame := by
  have inside := allocator.pages.lt_of_counted live.2
  have bound : 2 ^ top ≤ 2 ^ 25 :=
    Nat.pow_le_pow_right (by decide) allocator.small
  have lower := live.1
  simp only [ramBase, nullFrame] at *
  omega

theorem lt_ppn (allocator : Allocator top multi m) {frame : Nat}
    (live : Live m frame) : frame < 2 ^ 44 :=
  (allocator.lt_nullFrame live).trans (by decide)

/-- An allocation for which there is room does not hand out the first page. -/
theorem alloc_ne_zero (allocator : Allocator top multi m)
    (enough : 1 ≤ m.buddy.bitmap 0) : (m.buddy.alloc 1).1 ≠ 0 := by
  obtain ⟨_, unused, _, _⟩ := allocator.pages.alloc enough
  intro zero
  rw [zero] at unused
  exact absurd allocator.zero_live (by omega)

end Allocator

/-- The frame of a page that the allocator can hand out. -/
structure Free (top : Nat) (m : Machine) (frame : Nat) : Prop where
  lower : ramBase ≤ frame
  upper : frame < ramBase + 2 ^ top
  unused : Buddy.Unused top m.buddy (frame - ramBase)

theorem Allocator.not_free {top : Nat} {multi : Set Nat} {m : Machine}
    (allocator : Allocator top multi m) {frame : Nat} (live : Live m frame) :
    ¬ Free top m frame :=
  fun free => allocator.pages.not_unused live.2 free.unused

/-- Free frames depend on the bitmap only. -/
theorem Free.congr {top : Nat} {m after : Machine} {frame : Nat}
    (free : Free top after frame)
    (bitmap : after.buddy.bitmap = m.buddy.bitmap) : Free top m frame := by
  refine ⟨free.lower, free.upper, fun node inTree inside => ?_⟩
  rw [← bitmap]
  exact free.unused node inTree inside

/-- What a successful `alloc_page` or `kalloc` does. -/
structure Allocated (top : Nat) (multi : Set Nat) (zeroed : Bool) (m : Machine)
    (frame : Nat) (after : Machine) : Prop where
  isFresh : ¬ Live m frame
  free : Free top m frame
  left : ∀ other, Free top after other → Free top m other ∧ other ≠ frame
  live : Live after frame
  counts : after.buddy.refCnt =
    Function.update m.buddy.refCnt (frame - ramBase) 1
  allocator : Allocator top multi after
  mem : after.mem =
    if zeroed then Bytes.fill m.mem (4096 * frame) 0 4096 else m.mem
  oom : after.oom = m.oom

/-- What succeeds in the end has not failed before. -/
theorem succeeds_of_mono {before after : Bool}
    (mono : before = true → after = true) (succeeds : after = false) :
    before = false := by
  cases before with
  | false => rfl
  | true =>
      rw [mono rfl] at succeeds
      cases succeeds

theorem allocPage_oom_mono {zeroed : Bool} {m : Machine} (failed : m.oom = true) :
    (allocPage zeroed m).2.oom = true := by
  simp only [allocPage]
  split
  · rfl
  · exact failed

/-- An allocation either fails, and is recorded, or hands out a fresh frame. -/
theorem allocPage_spec {top : Nat} {multi : Set Nat} {zeroed : Bool}
    {m : Machine} (allocator : Allocator top multi m)
    (succeeds : (allocPage zeroed m).2.oom = false) :
    Allocated top multi zeroed m (allocPage zeroed m).1
      (allocPage zeroed m).2 := by
  by_cases room : 1 ≤ m.buddy.bitmap 0
  · obtain ⟨small, unused, counts, pages⟩ := allocator.pages.alloc room
    obtain ⟨taken, left⟩ := allocator.pages.unused_alloc room
    have nonzero := allocator.alloc_ne_zero room
    have frame : ramBase + (m.buddy.alloc 1).1 - ramBase =
        (m.buddy.alloc 1).1 := Nat.add_sub_cancel_left ..
    simp only [allocPage, if_neg nonzero] at succeeds ⊢
    refine ⟨?_, ⟨Nat.le_add_right _ _, Nat.add_lt_add_left small _, ?_⟩, ?_,
      ?_, ?_, ⟨allocator.small, pages, ?_⟩, rfl, rfl⟩
    · rintro ⟨-, counted⟩
      rw [frame, unused] at counted
      exact absurd counted (Nat.lt_irrefl 0)
    · rw [frame]
      exact taken
    · intro other free
      obtain ⟨before, different⟩ := (left _).1 free.unused
      refine ⟨⟨free.lower, free.upper, before⟩, fun same => different ?_⟩
      rw [same, frame]
    · refine ⟨Nat.le_add_right _ _, ?_⟩
      rw [frame]
      simp only [counts, Function.update_self, Nat.one_pos]
    · simp only [counts, frame]
    · simp only [counts, Function.update_apply]
      split
      · exact Nat.one_pos
      · exact allocator.zero_live
  · have failed : m.buddy.alloc 1 = (0, m.buddy) :=
      Buddy.Pages.alloc_fails (by omega)
    simp only [allocPage, failed] at succeeds
    cases succeeds

namespace Allocated

variable {top : Nat} {multi : Set Nat} {zeroed : Bool} {m after : Machine}
    {frame : Nat}

theorem ne_of_live (allocated : Allocated top multi zeroed m frame after)
    {other : Nat} (live : Live m other) : other ≠ frame :=
  fun same => allocated.isFresh (same ▸ live)

/-- Counts of other frames do not change. -/
theorem refCnt_eq (allocated : Allocated top multi zeroed m frame after)
    {other : Nat} (lower : ramBase ≤ other) (different : other ≠ frame) :
    after.buddy.refCnt (other - ramBase) = m.buddy.refCnt (other - ramBase) := by
  have base := allocated.live.1
  rw [allocated.counts, Function.update_of_ne (by omega)]

theorem refCnt_frame (allocated : Allocated top multi zeroed m frame after) :
    after.buddy.refCnt (frame - ramBase) = 1 := by
  rw [allocated.counts, Function.update_self]

theorem live_iff (allocated : Allocated top multi zeroed m frame after)
    {other : Nat} : Live after other ↔ Live m other ∨ other = frame := by
  by_cases same : other = frame
  · subst same
    exact ⟨fun _ => Or.inr rfl, fun _ => allocated.live⟩
  · constructor
    · rintro ⟨lower, counted⟩
      rw [allocated.refCnt_eq lower same] at counted
      exact Or.inl ⟨lower, counted⟩
    · rintro (⟨lower, counted⟩ | equal)
      · rw [← allocated.refCnt_eq lower same] at counted
        exact ⟨lower, counted⟩
      · exact absurd equal same

theorem sameFrame (allocated : Allocated top multi zeroed m frame after)
    {other : Nat} (different : other ≠ frame) :
    SameFrame m.mem after.mem other := by
  rw [allocated.mem]
  split
  · exact sameFrame_fill different
  · exact SameFrame.refl _ _

theorem word_zero (allocated : Allocated top multi zeroed m frame after)
    (zeroing : zeroed = true) {index : Nat} (small : index < 512) :
    word after.mem frame index = 0 := by
  rw [allocated.mem, if_pos zeroing]
  exact word_fill_zero small

end Allocated

/-! ## Hanging a table below an entry -/

/-- `nextTable` met an invalid entry and hung a fresh table below it. -/
structure Hung (top : Nat) (multi : Set Nat) (zeroed : Bool) (m : Machine)
    (table position fresh : Nat) (after : Machine) : Prop where
  absent : ¬ has permV (word m.mem table position)
  page : ∃ mem, after.mem = setWord mem table position (entry fresh permV) ∧
    Allocated top multi zeroed m fresh { after with mem }

theorem nextTable_oom_mono (cfg : Config) {m : Machine} (table position : Nat)
    (failed : m.oom = true) : (nextTable cfg m table position).2.oom = true := by
  simp only [nextTable]
  split
  · exact allocPage_oom_mono failed
  · exact failed

theorem nextTable_of_some {cfg : Config} {m : Machine}
    {table position next : Nat}
    (found : findTable m.mem table position = some next) :
    nextTable cfg m table position = (next, m) := by
  obtain ⟨valid, ppn⟩ := findTable_eq_some.1 found
  rw [nextTable, if_neg valid, ppn]

/-- The two outcomes of a level of `create_mapping`. -/
theorem nextTable_cases {top : Nat} {multi : Set Nat} {cfg : Config}
    {m : Machine} {table position : Nat} (allocator : Allocator top multi m)
    (succeeds : (nextTable cfg m table position).2.oom = false) :
    (∃ next, findTable m.mem table position = some next ∧
      nextTable cfg m table position = (next, m)) ∨
    Hung top multi (cfg.fill ≠ .asFound) m table position
      (nextTable cfg m table position).1 (nextTable cfg m table position).2 := by
  by_cases valid : word m.mem table position &&& permV = 0
  · refine Or.inr ?_
    simp only [nextTable, if_pos valid, Config.kalloc] at succeeds ⊢
    have allocated := allocPage_spec allocator succeeds
    have small := allocated.allocator.lt_ppn allocated.live
    have mask : ppnMask = 2 ^ 44 - 1 := by decide
    refine ⟨by simpa [has] using valid, _, ?_, allocated⟩
    rw [mask, Nat.and_two_pow_sub_one_eq_mod, Nat.mod_eq_of_lt small]
  · refine Or.inl ⟨entryPpn (word m.mem table position), ?_, ?_⟩
    · rw [findTable, if_neg valid]
    · rw [nextTable, if_neg valid]

namespace Hung

variable {top : Nat} {multi : Set Nat} {zeroed : Bool} {m after : Machine}
    {table position fresh : Nat}

theorem isFresh (hung : Hung top multi zeroed m table position fresh after) :
    ¬ Live m fresh := by
  obtain ⟨_, -, allocated⟩ := hung.page
  exact allocated.isFresh

theorem free (hung : Hung top multi zeroed m table position fresh after) :
    Free top m fresh := by
  obtain ⟨_, -, allocated⟩ := hung.page
  exact allocated.free

theorem left (hung : Hung top multi zeroed m table position fresh after)
    (other : Nat) (free : Free top after other) :
    Free top m other ∧ other ≠ fresh := by
  obtain ⟨_, -, allocated⟩ := hung.page
  exact allocated.left other (free.congr rfl)

theorem live_fresh (hung : Hung top multi zeroed m table position fresh after) :
    Live after fresh := by
  obtain ⟨_, -, allocated⟩ := hung.page
  exact allocated.live

theorem allocator (hung : Hung top multi zeroed m table position fresh after) :
    Allocator top multi after := by
  obtain ⟨_, -, allocated⟩ := hung.page
  exact ⟨allocated.allocator.small, allocated.allocator.pages,
    allocated.allocator.zero_live⟩

theorem oom (hung : Hung top multi zeroed m table position fresh after) :
    after.oom = m.oom := by
  obtain ⟨_, -, allocated⟩ := hung.page
  exact allocated.oom

theorem live_iff (hung : Hung top multi zeroed m table position fresh after)
    {other : Nat} : Live after other ↔ Live m other ∨ other = fresh := by
  obtain ⟨_, -, allocated⟩ := hung.page
  exact allocated.live_iff

theorem refCnt_eq (hung : Hung top multi zeroed m table position fresh after)
    {other : Nat} (live : Live m other) :
    after.buddy.refCnt (other - ramBase) = m.buddy.refCnt (other - ramBase) := by
  obtain ⟨_, -, allocated⟩ := hung.page
  exact allocated.refCnt_eq live.1 (allocated.ne_of_live live)

theorem counts (hung : Hung top multi zeroed m table position fresh after) :
    after.buddy.refCnt =
      Function.update m.buddy.refCnt (fresh - ramBase) 1 := by
  obtain ⟨_, -, allocated⟩ := hung.page
  exact allocated.counts

/-- Only the table and the fresh frame are written. -/
theorem sameFrame (hung : Hung top multi zeroed m table position fresh after)
    (small : position < 512) {other : Nat} (notTable : other ≠ table)
    (notFresh : other ≠ fresh) : SameFrame m.mem after.mem other := by
  obtain ⟨mem, written, allocated⟩ := hung.page
  rw [written]
  exact (allocated.sameFrame notFresh).trans (sameFrame_setWord small notTable)

/-- The entry now names the fresh table. -/
theorem word_here (hung : Hung top multi zeroed m table position fresh after) :
    word after.mem table position = entry fresh permV := by
  obtain ⟨mem, written, allocated⟩ := hung.page
  rw [written]
  exact word_setWord _ _ _ (entry_lt
    (allocated.allocator.lt_ppn allocated.live) (by decide))

theorem findTable_here
    (hung : Hung top multi zeroed m table position fresh after) :
    findTable after.mem table position = some fresh := by
  have flag : permV = 2 ^ 0 := by decide
  rw [findTable_eq_some, hung.word_here]
  constructor
  · rw [flag, has_entry (by decide)]
    decide
  · exact entryPpn_entry (hung.allocator.lt_ppn hung.live_fresh) (by decide)

/-- The other entries of the table are unchanged. -/
theorem word_table (hung : Hung top multi zeroed m table position fresh after)
    (liveTable : Live m table) {other : Nat} (small : other < 512)
    (different : other ≠ position) :
    word after.mem table other = word m.mem table other := by
  obtain ⟨mem, written, allocated⟩ := hung.page
  rw [written, word_setWord_of_ne different]
  exact (allocated.sameFrame (allocated.ne_of_live liveTable)).word small

/-- The entries of the fresh table, when the allocator fills its pages. -/
theorem word_fresh (hung : Hung top multi zeroed m table position fresh after)
    (liveTable : Live m table) (position_small : position < 512)
    (zeroing : zeroed = true) {other : Nat} (small : other < 512) :
    word after.mem fresh other = 0 := by
  obtain ⟨mem, written, allocated⟩ := hung.page
  have different : fresh ≠ table := (allocated.ne_of_live liveTable).symm
  rw [written, (sameFrame_setWord position_small different).word small]
  exact allocated.word_zero zeroing small

/-- The entries of the fresh table are those the frame had, unless it is filled. -/
theorem word_fresh_asFound
    (hung : Hung top multi false m table position fresh after)
    (liveTable : Live m table) (position_small : position < 512) {other : Nat}
    (small : other < 512) :
    word after.mem fresh other = word m.mem fresh other := by
  obtain ⟨mem, written, allocated⟩ := hung.page
  have different : fresh ≠ table := (allocated.ne_of_live liveTable).symm
  have unchanged : mem = m.mem := allocated.mem
  rw [written, (sameFrame_setWord position_small different).word small,
    unchanged]

end Hung

/-! ## The body of `create_mapping` -/

section MapPage

variable {cfg : Config} {m : Machine} {pgtbl va pa perm : Nat}

theorem mapPage_oom_mono (failed : m.oom = true) :
    (mapPage cfg m pgtbl va pa perm).2.oom = true := by
  have first := nextTable_oom_mono cfg pgtbl (vpn 2 va) failed
  have second := nextTable_oom_mono cfg (nextTable cfg m pgtbl (vpn 2 va)).1
    (vpn 1 va) first
  simp only [mapPage]
  split
  · exact first
  · split
    · exact second
    · exact second

/-- No allocation of the body failed. -/
theorem mapPage_succeeds
    (succeeds : (mapPage cfg m pgtbl va pa perm).2.oom = false) :
    (nextTable cfg m pgtbl (vpn 2 va)).2.oom = false ∧
      ((nextTable cfg m pgtbl (vpn 2 va)).1 ≠ nullFrame →
        (nextTable cfg (nextTable cfg m pgtbl (vpn 2 va)).2
          (nextTable cfg m pgtbl (vpn 2 va)).1 (vpn 1 va)).2.oom = false) := by
  constructor
  · refine succeeds_of_mono (fun failed => ?_) succeeds
    have second := nextTable_oom_mono cfg (nextTable cfg m pgtbl (vpn 2 va)).1
      (vpn 1 va) failed
    simp only [mapPage]
    split
    · exact failed
    · split
      · exact second
      · exact second
  · intro found
    simp only [mapPage] at succeeds
    rw [if_neg found] at succeeds
    split at succeeds
    · exact succeeds
    · exact succeeds

/-- The body when both tables are there. -/
theorem mapPage_eq (pa perm : Nat) {pmd pte : Nat} {middle last : Machine}
    (first : nextTable cfg m pgtbl (vpn 2 va) = (pmd, middle))
    (second : nextTable cfg middle pmd (vpn 1 va) = (pte, last))
    (pmdFound : pmd ≠ nullFrame) (pteFound : pte ≠ nullFrame) :
    mapPage cfg m pgtbl va pa perm =
      (false, { last with
        mem := setWord last.mem pte (vpn 0 va)
          (entry ((pa >>> 12) &&& ppnMask) perm) }) := by
  simp only [mapPage, first, if_neg pmdFound, second, if_neg pteFound]

end MapPage

theorem mapPages_oom_mono {cfg : Config} {pgtbl va pa perm count offset : Nat}
    {m : Machine} (failed : m.oom = true) :
    (mapPages cfg pgtbl va pa perm count offset m).2.oom = true := by
  induction count generalizing offset m with
  | zero => exact failed
  | succ count induction =>
      rw [mapPages]
      dsimp only
      split
      · exact mapPage_oom_mono failed
      · exact induction (mapPage_oom_mono failed)

/-- If no round of the loop failed, the first one did not. -/
theorem mapPages_first {cfg : Config} {pgtbl va pa perm count offset : Nat}
    {m : Machine}
    (succeeds : (mapPages cfg pgtbl va pa perm (count + 1) offset m).2.oom =
      false) :
    (mapPage cfg m pgtbl ((va + offset) % 2 ^ 64) ((pa + offset) % 2 ^ 64)
      perm).2.oom = false := by
  refine succeeds_of_mono (fun failed => ?_) succeeds
  rw [mapPages]
  dsimp only
  split
  · exact failed
  · exact mapPages_oom_mono failed

/-- A call that returns has done its loop. -/
theorem createMapping_ok {cfg : Config} {m after : Machine}
    {pgtbl va pa sz perm : Nat}
    (returns : createMapping cfg m pgtbl va pa sz perm = .ok after) :
    after = (mapPages cfg pgtbl va pa perm ((sz + 4095) / 4096) 0 m).2 := by
  simp only [createMapping] at returns
  split at returns
  · exact (Except.ok.inj returns).symm
  · cases returns

/-! ## The forest of tables -/

universe u

/-- The tables reached along the paths of a domain are a forest of live frames. -/
structure Tables {Id : Type u} (root : Id → Nat) (dom : Id → List Nat → Prop)
    (m : Machine) : Prop where
  forest : Forest root dom (findTable m.mem)
  small : ∀ id path, dom id path → ∀ position ∈ path, position < 512
  live : ∀ frame, Reached root dom (findTable m.mem) frame → Live m frame

namespace Tables

variable {Id : Type u} {root : Id → Nat} {dom : Id → List Nat → Prop}
    {top : Nat} {multi : Set Nat} {zeroed : Bool} {m after : Machine}

theorem last_small (tables : Tables root dom m) {id : Id} {path : List Nat}
    {position : Nat} (inside : dom id (path ++ [position])) :
    position < 512 :=
  tables.small id _ inside position (by simp)

/-- Walks depend on the frames they pass. -/
theorem agree_of_sameFrame (tables : Tables root dom m) {mem : Bytes}
    (same : ∀ id path position frame, dom id (path ++ [position]) →
      walk (findTable m.mem) (root id) path = some frame →
      SameFrame m.mem mem frame) :
    ∀ id path position frame, dom id (path ++ [position]) →
      walk (findTable m.mem) (root id) path = some frame →
      findTable mem frame position = findTable m.mem frame position :=
  fun id path position frame inside reached =>
    (same id path position frame inside reached).findTable
      (tables.last_small inside)

section Hang

variable {table position fresh : Nat} {id : Id} {path : List Nat}

theorem reached_live (tables : Tables root dom m) (inside : dom id path)
    {frame : Nat} (reached : walk (findTable m.mem) (root id) path = some frame) :
    Live m frame :=
  tables.live frame ⟨id, path, inside, reached⟩

theorem not_reached_of_not_live (tables : Tables root dom m) {frame : Nat}
    (dead : ¬ Live m frame) : ¬ Reached root dom (findTable m.mem) frame :=
  fun reached => dead (tables.live frame reached)

variable (tables : Tables root dom m)
    (hung : Hung top multi zeroed m table position fresh after)
    (inside : dom id (path ++ [position]))
    (reached : walk (findTable m.mem) (root id) path = some table)

include tables hung inside reached

theorem attached : Forest.Attached root dom (findTable m.mem)
    (findTable after.mem) table position fresh := by
  have tableLive :=
    tables.reached_live (tables.forest.closed id path position inside) reached
  refine ⟨findTable_eq_none.2 hung.absent, hung.findTable_here, ?_⟩
  intro id' path' node index inside' toNode different
  have small := tables.last_small inside'
  have nodeLive :=
    tables.reached_live (tables.forest.closed id' path' index inside') toNode
  have notFresh : node ≠ fresh := fun same => hung.isFresh (same ▸ nodeLive)
  by_cases atTable : node = table
  · subst atTable
    have other : index ≠ position := fun same => different ⟨rfl, same⟩
    rw [findTable, findTable, hung.word_table tableLive small other]
  · exact (hung.sameFrame (tables.last_small inside) atTable
      notFresh).findTable small

variable (empty : ∀ next, dom id (path ++ [position] ++ [next]) →
      ¬ has permV (word after.mem fresh next))

include empty

/-- Hanging a table adds one path to the walks. -/
theorem walk_hung {id' : Id} {path' : List Nat} (inside' : dom id' path')
    (last : Nat) :
    walk (findTable after.mem) (root id') path' = some last ↔
      walk (findTable m.mem) (root id') path' = some last ∨
        (id' = id ∧ path' = path ++ [position] ∧ last = fresh) :=
  tables.forest.walk_attached (attached tables hung inside reached)
    (tables.forest.closed id path position inside) reached
    (fun next nextInside => findTable_eq_none.2 (empty next nextInside))
    inside' last

theorem hung_tables : Tables root dom after := by
  refine ⟨?_, tables.small, ?_⟩
  · exact tables.forest.attach (attached tables hung inside reached)
      (tables.forest.closed id path position inside) reached
      (tables.not_reached_of_not_live hung.isFresh)
      (fun next nextInside => findTable_eq_none.2 (empty next nextInside))
  · rintro frame ⟨id', path', inside', toFrame⟩
    rcases (walk_hung tables hung inside reached empty inside' frame).1 toFrame
      with old | ⟨-, -, rfl⟩
    · exact hung.live_iff.2 (Or.inl (tables.reached_live inside' old))
    · exact hung.live_fresh

end Hang

/-! ## Writes outside the walks -/

/-- Frames that no walk passes may change, and other pages may come and go. -/
theorem congr (tables : Tables root dom m)
    (same : ∀ id path position frame, dom id (path ++ [position]) →
      walk (findTable m.mem) (root id) path = some frame →
      SameFrame m.mem after.mem frame)
    (stillLive : ∀ frame, Reached root dom (findTable m.mem) frame →
      Live m frame → Live after frame) :
    Tables root dom after ∧
      ∀ id path, dom id path → walk (findTable after.mem) (root id) path =
        walk (findTable m.mem) (root id) path := by
  have agree := tables.agree_of_sameFrame same
  have walks : ∀ id path, dom id path →
      walk (findTable after.mem) (root id) path =
        walk (findTable m.mem) (root id) path :=
    fun _ _ inside => Forest.walk_congr tables.forest.closed agree inside
  refine ⟨⟨tables.forest.congr agree, tables.small, ?_⟩, walks⟩
  rintro frame ⟨id, path, inside, toFrame⟩
  rw [walks id path inside] at toFrame
  exact stillLive frame ⟨id, path, inside, toFrame⟩
    (tables.reached_live inside toFrame)

end Tables

end TinyRiscvOs.Vm
