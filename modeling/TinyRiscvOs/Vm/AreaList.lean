import TinyRiscvOs.Lib.DoublyLinked
import TinyRiscvOs.Vm.Areas
import TinyRiscvOs.Vm.StrayMapping

/-!
# The list of areas in memory

Every area lies at the start of a page of its own and is linked both ways by
kernel addresses.  A pointer is the frame of its page, `nullFrame` for `NULL`,
and the words of the page are those of `struct vm_area_struct`.  `do_mmap`
pushes a node in front of the list and `find_vma` searches along the links, so
an address belongs to the area added last of those that contain it.
-/

namespace TinyRiscvOs.Vm

open TinyRiscvOs.Lib
open TinyRiscvOs.Mm

/-! ## Pointers -/

/-- The kernel address of a page. -/
def kernelPointer (frame : Nat) : Nat :=
  (4096 * frame + pa2vaOffset) % 2 ^ 64

/-- The frame of the page at a kernel address. -/
def pointerFrame (va : Nat) : Nat :=
  wordSub va pa2vaOffset / 4096

theorem kernelPointer_lt (frame : Nat) : kernelPointer frame < 2 ^ 64 :=
  Nat.mod_lt _ (by decide)

theorem pointerFrame_kernelPointer {frame : Nat} (small : frame ≤ nullFrame) :
    pointerFrame (kernelPointer frame) = frame := by
  have fits : 4096 * frame < wordModulus := by
    simp only [nullFrame, wordModulus] at *
    omega
  have offset : pa2vaOffset < wordModulus := by decide
  have back : wordSub (kernelPointer frame) pa2vaOffset = 4096 * frame :=
    wordSub_add fits offset
  rw [pointerFrame, back, Nat.mul_div_cancel_left _ (by decide)]

theorem pointerFrame_zero : pointerFrame 0 = nullFrame := by
  decide

/-! ## The words of an area -/

/-- Consecutive words of a page. -/
def setWords (mem : Bytes) (frame index : Nat) : List Nat → Bytes
  | [] => mem
  | value :: values =>
      setWords (setWord mem frame index value) frame (index + 1) values

theorem sameFrame_setWords {mem : Bytes} {frame index other : Nat}
    {values : List Nat} (small : index + values.length ≤ 512)
    (different : other ≠ frame) :
    SameFrame mem (setWords mem frame index values) other := by
  induction values generalizing mem index with
  | nil => exact .refl mem other
  | cons value values induction =>
      rw [List.length_cons] at small
      exact (sameFrame_setWord (by omega) different).trans
        (induction (by omega))

theorem word_setWords_below {mem : Bytes} {frame index other : Nat}
    {values : List Nat} (below : other < index) :
    word (setWords mem frame index values) frame other =
      word mem frame other := by
  induction values generalizing mem index with
  | nil => rfl
  | cons value values induction =>
      rw [setWords, induction (by omega), word_setWord_of_ne (by omega)]

theorem word_setWords {mem : Bytes} {frame index offset value : Nat}
    {values : List Nat} (there : values[offset]? = some value)
    (fits : value < 2 ^ 64) :
    word (setWords mem frame index values) frame (index + offset) = value := by
  induction values generalizing mem index offset with
  | nil => cases there
  | cons first values induction =>
      rw [setWords]
      cases offset with
      | zero =>
          obtain rfl : first = value := Option.some.inj there
          change word _ frame index = first
          rw [word_setWords_below (Nat.lt_add_one index),
            word_setWord _ _ _ fits]
      | succ offset =>
          rw [List.getElem?_cons_succ] at there
          have moved : index + (offset + 1) = index + 1 + offset := by omega
          rw [moved]
          exact induction there

/-- The fields of the area at a page, without its links. -/
def vmaAt (mem : Bytes) (frame : Nat) : Vma where
  vmStart := word mem frame 1
  vmEnd := word mem frame 2
  vmFlags := word mem frame 5
  vmPgoff := word mem frame 6
  vmFilesz := word mem frame 7

/-- The links `vm_next` and `vm_prev` of the areas. -/
def areaLinks (mem : Bytes) : Links Nat where
  next frame := pointerFrame (word mem frame 3)
  prev frame := pointerFrame (word mem frame 4)

theorem vmaAt_congr {mem other : Bytes} {frame : Nat}
    (same : ∀ index < 8, index ≠ 4 →
      word other frame index = word mem frame index) :
    vmaAt other frame = vmaAt mem frame := by
  simp only [vmaAt, same 1 (by decide) (by decide), same 2 (by decide) (by decide),
    same 5 (by decide) (by decide), same 6 (by decide) (by decide),
    same 7 (by decide) (by decide)]

/-! ## The two functions -/

/--
`find_vma` from the pointer `curVma` on; `none` is a run that has used up its
fuel.
-/
def findVmaLinked (mem : Bytes) : Nat → Nat → Nat → Option Nat
  | 0, _, _ => none
  | fuel + 1, curVma, addr =>
      if curVma ≠ nullFrame then
        if (vmaAt mem curVma).Contains addr then some curVma
        else findVmaLinked mem fuel ((areaLinks mem).next curVma) addr
      else some nullFrame

/-- The stores of `do_mmap` into the new node and the old head of the list. -/
def linkedMem (mem : Bytes) (curVma mm mmap : Nat) (args : MmapArgs) : Bytes :=
  let mem := setWords mem curVma 0
    [mm, args.addr, (args.addr + args.len) % 2 ^ 64, 0, 0, args.flags,
      args.vmPgoff, args.vmFilesz]
  let mem := setWord mem curVma 3 (kernelPointer mmap)
  let mem := setWord mem curVma 4 0
  if mmap ≠ nullFrame then setWord mem mmap 4 (kernelPointer curVma) else mem

/-- `do_mmap` for the descriptor at `mm`, whose `mmap` is given: the new `mmap`. -/
def doMmapLinked (cfg : Config) (m : Machine) (mm mmap : Nat)
    (args : MmapArgs) : Except Stop (Nat × Machine) :=
  let (curVma, m) := cfg.kalloc m
  if curVma = nullFrame then .error .panic
  else .ok (curVma, { m with mem := linkedMem m.mem curVma mm mmap args })

/-- Calls of `do_mmap` one after the other. -/
def doMmapsLinked (cfg : Config) (mm : Nat) :
    List MmapArgs → Nat → Machine → Except Stop (Nat × Machine)
  | [], mmap, m => .ok (mmap, m)
  | args :: calls, mmap, m =>
      match doMmapLinked cfg m mm mmap args with
      | .error stop => .error stop
      | .ok (mmap, m) => doMmapsLinked cfg mm calls mmap m

/-- The arguments of a call are of type `uint64_t`, and the area does not wrap. -/
structure MmapArgs.Typed (args : MmapArgs) : Prop where
  inside : args.addr + args.len < 2 ^ 64
  vmPgoff : args.vmPgoff < 2 ^ 64
  vmFilesz : args.vmFilesz < 2 ^ 64
  flags : args.flags < 2 ^ 64

/-- The area of a call contains the address. -/
def MmapArgs.Covers (args : MmapArgs) (addr : Nat) : Prop :=
  args.addr ≤ addr ∧ addr < args.addr + args.len

instance (args : MmapArgs) (addr : Nat) : Decidable (args.Covers addr) :=
  inferInstanceAs (Decidable (_ ∧ _))

theorem MmapArgs.Typed.contains_iff {args : MmapArgs} (typed : args.Typed)
    (addr : Nat) : args.vma.Contains addr ↔ args.Covers addr := by
  rw [Vma.Contains, MmapArgs.Covers, MmapArgs.vma,
    Nat.mod_eq_of_lt typed.inside]

/-- `find_vma` is the search of the library. -/
theorem findVmaLinked_eq_search (mem : Bytes) (fuel curVma addr : Nat) :
    findVmaLinked mem fuel curVma addr =
      (areaLinks mem).search nullFrame
        (fun frame => (vmaAt mem frame).Contains addr) fuel curVma := by
  induction fuel generalizing curVma with
  | zero => rfl
  | succ fuel induction =>
      rw [findVmaLinked, Links.search]
      by_cases atEnd : curVma = nullFrame
      · rw [if_neg (not_not.2 atEnd), if_pos atEnd]
      · rw [if_pos atEnd, if_neg atEnd, induction]
        simp only [decide_eq_true_eq]

/-! ## One call -/

/-- What a successful `kalloc` means for the frames in use. -/
structure Taken (cfg : Config) (multi : Set Nat) (m : Machine) (frame : Nat)
    (after : Machine) : Prop where
  isFresh : ¬ Live m frame
  live : Live after frame
  kept : ∀ other, Live m other → Live after other
  allocator : Allocator cfg.top multi after
  elsewhere : ∀ other, other ≠ frame → SameFrame m.mem after.mem other

/-- The record of earlier failures does not matter to a successful `kalloc`. -/
theorem kalloc_oom {cfg : Config} {m : Machine}
    (succeeds : (cfg.kalloc m).1 ≠ nullFrame) (oom : Bool) :
    cfg.kalloc { m with oom } =
      ((cfg.kalloc m).1, { (cfg.kalloc m).2 with oom }) := by
  simp only [Config.kalloc, allocPage] at succeeds ⊢
  split
  · next zero =>
      rw [if_pos zero] at succeeds
      exact absurd rfl succeeds
  · rfl

theorem kalloc_taken {cfg : Config} {multi : Set Nat} {m : Machine}
    (allocator : Allocator cfg.top multi m)
    (succeeds : (cfg.kalloc m).1 ≠ nullFrame) :
    Taken cfg multi m (cfg.kalloc m).1 (cfg.kalloc m).2 := by
  have clean : Allocator cfg.top multi { m with oom := false } :=
    ⟨allocator.small, allocator.pages, allocator.zero_live⟩
  have allocated : Allocated cfg.top multi (cfg.fill ≠ .asFound)
      { m with oom := false } (cfg.kalloc { m with oom := false }).1
      (cfg.kalloc { m with oom := false }).2 :=
    allocPage_spec clean (congrArg (fun taken => taken.2.oom)
      (kalloc_oom succeeds false))
  rw [kalloc_oom succeeds] at allocated
  have kept := allocated.allocator
  exact
    { isFresh := allocated.isFresh
      live := allocated.live
      kept := fun other isLive => allocated.live_iff.2 (.inl isLive)
      allocator := ⟨kept.small, kept.pages, kept.zero_live⟩
      elsewhere := fun _ different => allocated.sameFrame different }

/-- The areas in memory: their pages, from the front of the list on. -/
structure AreaList (cfg : Config) (multi : Set Nat) (m : Machine) (mmap : Nat)
    (nodes : List Nat) (areas : List Vma) : Prop where
  allocator : Allocator cfg.top multi m
  live : ∀ node ∈ nodes, Live m node
  linked : (areaLinks m.mem).Doubly nullFrame mmap nodes
  areas : nodes.map (vmaAt m.mem) = areas

theorem AreaList.empty {cfg : Config} {multi : Set Nat} {m : Machine}
    (allocator : Allocator cfg.top multi m) :
    AreaList cfg multi m nullFrame [] [] where
  allocator := allocator
  live node member := by cases member
  linked := .empty _ _
  areas := rfl

section Stores

variable {mem : Bytes} {curVma mm mmap : Nat} {args : MmapArgs}

/-- Outside the new page only the back link of the old head changes. -/
theorem word_linkedMem_of_ne {node index : Nat} (different : node ≠ curVma)
    (small : index < 512) (kept : node = mmap → index ≠ 4) :
    word (linkedMem mem curVma mm mmap args) node index =
      word mem node index := by
  have page : ∀ other : Bytes, ∀ position value, position < 512 →
      word (setWord other curVma position value) node index =
        word other node index :=
    fun _ _ _ inside => (sameFrame_setWord inside different).word small
  have fields : word (setWords mem curVma 0
      [mm, args.addr, (args.addr + args.len) % 2 ^ 64, 0, 0, args.flags,
        args.vmPgoff, args.vmFilesz]) node index = word mem node index :=
    (sameFrame_setWords (show 0 + 8 ≤ 512 by decide) different).word small
  have back : ∀ other : Bytes, ∀ value,
      word (setWord other mmap 4 value) node index = word other node index := by
    intro other value
    by_cases front : node = mmap
    · rw [front]
      exact word_setWord_of_ne (kept front)
    · exact (sameFrame_setWord (by decide) front).word small
  simp only [linkedMem]
  split
  · rw [back, page _ _ _ (by decide), page _ _ _ (by decide), fields]
  · rw [page _ _ _ (by decide), page _ _ _ (by decide), fields]

/-- The new page, apart from the order of the stores. -/
theorem word_linkedMem_page (different : curVma ≠ mmap) {index : Nat}
    (small : index < 512) :
    word (linkedMem mem curVma mm mmap args) curVma index =
      word (setWord (setWord (setWords mem curVma 0
        [mm, args.addr, (args.addr + args.len) % 2 ^ 64, 0, 0, args.flags,
          args.vmPgoff, args.vmFilesz]) curVma 3 (kernelPointer mmap))
        curVma 4 0) curVma index := by
  simp only [linkedMem]
  split
  · exact (sameFrame_setWord (by decide) different).word small
  · rfl

theorem vmaAt_linkedMem (different : curVma ≠ mmap) (typed : args.Typed) :
    vmaAt (linkedMem mem curVma mm mmap args) curVma = args.vma := by
  have field (index value : Nat) (small : index < 8) (third : index ≠ 3)
      (fourth : index ≠ 4)
      (there : [mm, args.addr, (args.addr + args.len) % 2 ^ 64, 0, 0,
        args.flags, args.vmPgoff, args.vmFilesz][index]? = some value)
      (fits : value < 2 ^ 64) :
      word (linkedMem mem curVma mm mmap args) curVma index = value := by
    rw [word_linkedMem_page different (by omega), word_setWord_of_ne fourth,
      word_setWord_of_ne third]
    have stored := @word_setWords mem curVma 0 index value _ there fits
    rwa [Nat.zero_add] at stored
  have addr : args.addr < 2 ^ 64 :=
    Nat.lt_of_le_of_lt (Nat.le_add_right _ _) typed.inside
  rw [vmaAt, field 1 _ (by decide) (by decide) (by decide) rfl addr,
    field 2 _ (by decide) (by decide) (by decide) rfl
      (Nat.mod_lt _ (by decide)),
    field 5 _ (by decide) (by decide) (by decide) rfl typed.flags,
    field 6 _ (by decide) (by decide) (by decide) rfl typed.vmPgoff,
    field 7 _ (by decide) (by decide) (by decide) rfl typed.vmFilesz]
  rfl

end Stores

/-- A call puts its area in front of the list. -/
theorem AreaList.doMmapLinked {cfg : Config} {multi : Set Nat}
    {m after : Machine} {mm mmap mmap' : Nat} {nodes : List Nat}
    {areas : List Vma} {args : MmapArgs}
    (list : AreaList cfg multi m mmap nodes areas) (typed : args.Typed)
    (ran : doMmapLinked cfg m mm mmap args = .ok (mmap', after)) :
    AreaList cfg multi after mmap' (mmap' :: nodes) (args.vma :: areas) := by
  have allocates := @kalloc_taken cfg multi m list.allocator
  rw [Vm.doMmapLinked] at ran
  generalize cfg.kalloc m = kalloc at ran allocates
  obtain ⟨curVma, m'⟩ := kalloc
  dsimp only at ran allocates
  by_cases failed : curVma = nullFrame
  · rw [if_pos failed] at ran
    cases ran
  rw [if_neg failed] at ran
  obtain ⟨rfl, rfl⟩ := Prod.mk.inj (Except.ok.inj ran)
  have taken := allocates failed
  have unlike : ∀ node ∈ nodes, node ≠ curVma := by
    rintro node member rfl
    exact taken.isFresh (list.live node member)
  have front : mmap ≠ nullFrame → mmap ∈ nodes := list.linked.chain.head_mem
  have notHead : curVma ≠ mmap := by
    rintro rfl
    exact unlike _ (front failed) rfl
  have word_node : ∀ node ∈ nodes, ∀ index < 512, (node = mmap → index ≠ 4) →
      word (linkedMem m'.mem curVma mm mmap args) node index =
        word m.mem node index := by
    intro node member index small kept
    rw [word_linkedMem_of_ne (unlike node member) small kept]
    exact (taken.elsewhere node (unlike node member)).word small
  have small (node : Nat) (isLive : Live m' node) : node ≤ nullFrame :=
    (taken.allocator.lt_nullFrame isLive).le
  have mmapSmall : mmap ≤ nullFrame := by
    by_cases empty : mmap = nullFrame
    · exact empty.le
    · exact small mmap (taken.kept mmap (list.live mmap (front empty)))
  refine ⟨⟨taken.allocator.small, taken.allocator.pages,
    taken.allocator.zero_live⟩, ?_, ?_, ?_⟩
  · intro node member
    rcases List.mem_cons.1 member with rfl | later
    · exact taken.live
    · exact taken.kept node (list.live node later)
  · refine list.linked.push failed (fun member => unlike _ member rfl) ?_ ?_ ?_
      ?_ ?_
    · dsimp only [areaLinks]
      rw [word_linkedMem_page notHead (by decide), word_setWord_of_ne (by decide),
        word_setWord _ _ _ (kernelPointer_lt mmap),
        pointerFrame_kernelPointer mmapSmall]
    · dsimp only [areaLinks]
      rw [word_linkedMem_page notHead (by decide), word_setWord _ _ _ (by decide),
        pointerFrame_zero]
    · intro nonempty
      dsimp only [areaLinks, linkedMem]
      rw [if_pos nonempty, word_setWord _ _ _ (kernelPointer_lt curVma),
        pointerFrame_kernelPointer (small curVma taken.live)]
    · intro other member
      dsimp only [areaLinks]
      rw [word_node other member 3 (by decide) (fun _ => by decide)]
    · intro other member inner
      dsimp only [areaLinks]
      rw [word_node other member 4 (by decide) (fun same => absurd same inner)]
  · rw [List.map_cons, vmaAt_linkedMem notHead typed, ← list.areas]
    congr 1
    refine List.map_congr_left fun node member => vmaAt_congr ?_
    exact fun index below notFour =>
      word_node node member index (by omega) fun _ => notFour

/-- Calls on a list put their areas in front of it one after the other. -/
theorem AreaList.doMmapsLinked {cfg : Config} {multi : Set Nat} {mm : Nat}
    {calls : List MmapArgs} (typed : ∀ args ∈ calls, args.Typed)
    {m after : Machine} {mmap mmap' : Nat} {nodes : List Nat}
    {areas : List Vma} (list : AreaList cfg multi m mmap nodes areas)
    (ran : doMmapsLinked cfg mm calls mmap m = .ok (mmap', after)) :
    ∃ added, AreaList cfg multi after mmap' (added ++ nodes)
      ((calls.map MmapArgs.vma).reverse ++ areas) := by
  induction calls generalizing m mmap nodes areas with
  | nil =>
      obtain ⟨rfl, rfl⟩ := Prod.mk.inj (Except.ok.inj ran)
      exact ⟨[], list⟩
  | cons args calls induction =>
      rw [Vm.doMmapsLinked] at ran
      split at ran
      · cases ran
      · next next m' called =>
          have pushed := list.doMmapLinked (typed args List.mem_cons_self) called
          obtain ⟨added, final⟩ := induction
            (fun other member => typed other (List.mem_cons_of_mem _ member))
            pushed ran
          refine ⟨added ++ [next], ?_⟩
          rw [List.map_cons, List.reverse_cons, List.append_assoc,
            List.append_assoc]
          exact final

/-! ## The lookup -/

/-- The node of the call made last of those whose area contains the address. -/
def latestNode (nodes : List Nat) (calls : List MmapArgs) (addr : Nat) :
    Option Nat :=
  ((nodes.zip calls.reverse).find? fun added => added.2.Covers addr).map Prod.fst

/-- A search in a list by values that another list has too. -/
theorem find?_zip {α β γ : Type} {f : α → γ} {g : β → γ} {p : γ → Bool}
    {q : β → Bool} {nodes : List α} {others : List β}
    (same : nodes.map f = others.map g)
    (agree : ∀ other ∈ others, p (g other) = q other) :
    (nodes.find? fun node => p (f node)) =
      ((nodes.zip others).find? fun pair => q pair.2).map Prod.fst := by
  induction nodes generalizing others with
  | nil => rfl
  | cons node nodes induction =>
      cases others with
      | nil => cases same
      | cons other others =>
          obtain ⟨first, rest⟩ := List.cons.inj same
          have later := induction rest fun one member =>
            agree one (List.mem_cons_of_mem _ member)
          have here : p (f node) = q other := by
            rw [first]
            exact agree other List.mem_cons_self
          rw [List.zip_cons_cons, List.find?_cons, List.find?_cons, here, later]
          cases q other <;> rfl

theorem find?_zip_eq_none {α β : Type} {nodes : List α} {others : List β}
    {q : β → Bool} (length : nodes.length = others.length) :
    ((nodes.zip others).find? fun pair => q pair.2) = none ↔
      ∀ other ∈ others, q other = false := by
  have second : (nodes.zip others).map Prod.snd = others :=
    List.map_snd_zip length.ge
  rw [List.find?_eq_none]
  constructor
  · intro none other member
    rw [← second] at member
    obtain ⟨pair, found, rfl⟩ := List.mem_map.1 member
    exact Bool.eq_false_iff.2 (none pair found)
  · intro none pair found
    exact Bool.eq_false_iff.1 (none pair.2 (List.of_mem_zip found).2)

section Lookup

variable {cfg : Config} {multi : Set Nat} {m after : Machine} {mm mmap : Nat}
    {nodes : List Nat} {calls : List MmapArgs}

/-- `find_vma` on a list of areas ends with the node of the latest call. -/
theorem AreaList.findVmaLinked_eq (typed : ∀ args ∈ calls, args.Typed)
    (list : AreaList cfg multi m mmap nodes (calls.map MmapArgs.vma).reverse)
    (addr : Nat) {fuel : Nat} (enough : calls.length < fuel) :
    findVmaLinked m.mem fuel mmap addr =
      some ((latestNode nodes calls addr).getD nullFrame) := by
  have areas : nodes.map (vmaAt m.mem) = calls.reverse.map MmapArgs.vma := by
    rw [list.areas, List.map_reverse]
  have length : nodes.length = calls.length := by
    have lengths := congrArg List.length areas
    simpa only [List.length_map, List.length_reverse] using lengths
  have agree : ∀ args ∈ calls.reverse,
      decide (args.vma.Contains addr) = decide (args.Covers addr) :=
    fun args member => decide_eq_decide.2
      ((typed args (List.mem_reverse.1 member)).contains_iff addr)
  rw [findVmaLinked_eq_search,
    list.linked.chain.search_eq _ (by rw [length]; exact enough),
    @find?_zip _ _ _ _ _ (fun vma => decide (vma.Contains addr)) _ _ _ areas
      agree]
  rfl

/-- The list of areas without their pages gives the same area. -/
theorem AreaList.findVma_eq {areas : List Vma}
    (list : AreaList cfg multi m mmap nodes areas) (addr : Nat) {fuel : Nat}
    (enough : nodes.length < fuel) :
    ∃ node, findVmaLinked m.mem fuel mmap addr = some node ∧
      findVma areas addr =
        if node = nullFrame then none else some (vmaAt m.mem node) := by
  have found := list.linked.chain.search_eq
    (fun node => decide ((vmaAt m.mem node).Contains addr)) enough
  rw [← findVmaLinked_eq_search] at found
  refine ⟨_, found, ?_⟩
  have area : findVma areas addr =
      (nodes.find? fun node => decide ((vmaAt m.mem node).Contains addr)).map
        (vmaAt m.mem) := by
    rw [findVma_eq_find?, ← list.areas, List.find?_map]
    rfl
  rw [area]
  cases there : nodes.find? fun node =>
      decide ((vmaAt m.mem node).Contains addr) with
  | none => exact (if_pos rfl).symm
  | some node =>
      have isNode := list.linked.chain.ne_null (List.mem_of_find?_eq_some there)
      exact (if_neg isNode).symm

/-- A call is one of `doMmap` on the areas without their pages. -/
theorem doMmap_of_linked {args : MmapArgs} {mmap' : Nat} (areas : List Vma)
    (ran : doMmapLinked cfg m mm mmap args = .ok (mmap', after)) :
    ∃ other, doMmap cfg m areas args = .ok (args.vma :: areas, other) ∧
      other.buddy = after.buddy := by
  rw [Vm.doMmapLinked] at ran
  rw [doMmap]
  generalize cfg.kalloc m = kalloc at ran ⊢
  obtain ⟨curVma, m'⟩ := kalloc
  dsimp only at ran ⊢
  by_cases failed : curVma = nullFrame
  · rw [if_pos failed] at ran
    cases ran
  · rw [if_neg failed] at ran ⊢
    obtain ⟨-, rfl⟩ := Prod.mk.inj (Except.ok.inj ran)
    exact ⟨_, rfl, rfl⟩

/-- There is no such node exactly when no call covers the address. -/
theorem latestNode_eq_none (length : nodes.length = calls.length) (addr : Nat) :
    latestNode nodes calls addr = none ↔ ∀ args ∈ calls, ¬ args.Covers addr := by
  rw [latestNode, Option.map_eq_none_iff,
    @find?_zip_eq_none _ _ _ _ (fun args => decide (args.Covers addr))
      (length.trans List.length_reverse.symm)]
  simp only [List.mem_reverse, decide_eq_false_iff_not]

end Lookup

/--
After any calls of `do_mmap` on an empty list: the list is a finite doubly
linked list of one node for each call, the latest first, and `find_vma` ends
with the node of the latest call whose area contains the address, or `NULL` if
there is none.
-/
theorem find_vma_latest {cfg : Config} {multi : Set Nat} {m after : Machine}
    {mm mmap : Nat} {calls : List MmapArgs}
    (allocator : Allocator cfg.top multi m)
    (typed : ∀ args ∈ calls, args.Typed)
    (ran : doMmapsLinked cfg mm calls nullFrame m = .ok (mmap, after)) :
    ∃ nodes : List Nat,
      (areaLinks after.mem).Doubly nullFrame mmap nodes ∧
      nodes.map (vmaAt after.mem) = (calls.map MmapArgs.vma).reverse ∧
      (∀ node ∈ nodes, ∀ other ∈ nodes,
        ((areaLinks after.mem).next node = other ↔
          (areaLinks after.mem).prev other = node)) ∧
      (mmap ≠ nullFrame → (areaLinks after.mem).prev mmap = nullFrame) ∧
      ∀ addr fuel, calls.length < fuel →
        findVmaLinked after.mem fuel mmap addr =
            some ((latestNode nodes calls addr).getD nullFrame) ∧
          (findVmaLinked after.mem fuel mmap addr = some nullFrame ↔
            ∀ args ∈ calls, ¬ args.Covers addr) := by
  obtain ⟨nodes, list⟩ := (AreaList.empty allocator).doMmapsLinked typed ran
  rw [List.append_nil, List.append_nil] at list
  have length : nodes.length = calls.length := by
    have lengths := congrArg List.length list.areas
    simpa only [List.length_map, List.length_reverse] using lengths
  refine ⟨nodes, list.linked, list.areas,
    fun node member other isOther => list.linked.next_eq_iff member isOther,
    fun isNode => list.linked.chain.prev_head isNode,
    fun addr fuel enough => ?_⟩
  have found := list.findVmaLinked_eq typed addr enough
  refine ⟨found, ?_⟩
  rw [found, ← latestNode_eq_none length]
  constructor
  · intro null
    by_contra other
    obtain ⟨node, isNode⟩ := Option.ne_none_iff_exists'.1 other
    rw [isNode] at null
    obtain ⟨pair, pairFound, rfl⟩ := Option.map_eq_some_iff.1 isNode
    have member := (List.of_mem_zip (List.mem_of_find?_eq_some pairFound)).1
    exact list.linked.chain.ne_null member (Option.some.inj null)
  · intro none
    rw [none]
    rfl

namespace RecycledPage

/-- Two areas, the second one inside the first. -/
def nestedCalls : List MmapArgs :=
  [⟨0x1000, 0x2000, 0, 0x2000, 7⟩, ⟨0x1800, 0x100, 0, 0, 3⟩]

end RecycledPage

/-- Two overlapping areas. -/
theorem find_vma_latest_nested :
    ∃ mmap after,
      doMmapsLinked RecycledPage.config 0 RecycledPage.nestedCalls nullFrame
          (RecycledPage.machine 0) = .ok (mmap, after) ∧
      ∃ nodes : List Nat,
        (areaLinks after.mem).Doubly nullFrame mmap nodes ∧
        nodes.map (vmaAt after.mem) =
          (RecycledPage.nestedCalls.map MmapArgs.vma).reverse ∧
        (∀ node ∈ nodes, ∀ other ∈ nodes,
          ((areaLinks after.mem).next node = other ↔
            (areaLinks after.mem).prev other = node)) ∧
        (mmap ≠ nullFrame → (areaLinks after.mem).prev mmap = nullFrame) ∧
        ∀ addr fuel, RecycledPage.nestedCalls.length < fuel →
          findVmaLinked after.mem fuel mmap addr =
              some ((latestNode nodes RecycledPage.nestedCalls addr).getD
                nullFrame) ∧
            (findVmaLinked after.mem fuel mmap addr = some nullFrame ↔
              ∀ args ∈ RecycledPage.nestedCalls, ¬ args.Covers addr) := by
  have returns : (doMmapsLinked RecycledPage.config 0 RecycledPage.nestedCalls
      nullFrame (RecycledPage.machine 0)).isOk = true := by
    decide +kernel
  obtain ⟨⟨mmap, after⟩, ran⟩ : ∃ state,
      doMmapsLinked RecycledPage.config 0 RecycledPage.nestedCalls nullFrame
        (RecycledPage.machine 0) = .ok state := by
    revert returns
    cases doMmapsLinked RecycledPage.config 0 RecycledPage.nestedCalls nullFrame
        (RecycledPage.machine 0) with
    | error stop => exact fun returns => by cases returns
    | ok state => exact fun _ => ⟨state, rfl⟩
  refine ⟨mmap, after, ran, ?_⟩
  refine find_vma_latest (RecycledPage.machine_allocator 0) ?_ ran
  intro args member
  rcases List.mem_cons.1 member with rfl | second
  · exact ⟨by decide, by decide, by decide, by decide⟩
  · obtain rfl := List.mem_singleton.1 second
    exact ⟨by decide, by decide, by decide, by decide⟩

end TinyRiscvOs.Vm
