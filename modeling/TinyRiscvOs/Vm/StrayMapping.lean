import TinyRiscvOs.Lib.Run
import TinyRiscvOs.Vm.Tables

/-!
# `create_mapping` and the pages it turns into tables

`create_mapping` hangs pages of `kalloc` into the tree and relies on their
being zero.  `kalloc` does not clear them, so what a page held before decides
whether other pages become mapped with it.  The module follows one page table
through calls of `create_mapping` and through everything that leaves the tables
themselves alone.  As long as the pages that become tables name nothing but
what the call is about to write, no page outside the call becomes mapped.
-/

namespace TinyRiscvOs.Vm

open TinyRiscvOs.Lib
open TinyRiscvOs.Mm

/-- The paths of one tree: two levels of tables below the root. -/
def treePath (_ : Unit) (path : List Nat) : Prop :=
  path.length ≤ 2 ∧ ∀ position ∈ path, position < 512

/-- The page number of an address, as the tables see it. -/
def pageNumber (addr : Nat) : Nat :=
  addr / 4096 % 2 ^ 27

/-- A page is mapped: `find_pte` leads to a valid entry. -/
def Mapped (mem : Bytes) (pgtbl page : Nat) : Prop :=
  has permV (leaf mem pgtbl page)

instance (mem : Bytes) (pgtbl page : Nat) : Decidable (Mapped mem pgtbl page) :=
  inferInstanceAs (Decidable (has _ _))

/-- The pages a call writes: those of `va + k * PGSIZE` with `k * PGSIZE < sz`. -/
def Written (va sz page : Nat) : Prop :=
  ∃ k, k * 4096 < sz ∧ page = pageNumber (va + k * 4096)

/-- The table reached by a path came into the tree between two states. -/
def Installed (pgtbl : Nat) (before after : Bytes) (path : List Nat)
    (table : Nat) : Prop :=
  walk (findTable before) pgtbl path = none ∧
    walk (findTable after) pgtbl path = some table

/-- A call introduces no translation but those of the pages it writes. -/
structure NoStray (pgtbl va sz : Nat) (before after : Bytes) : Prop where
  /-- Other pages that were not mapped are still not mapped. -/
  unmapped : ∀ page < 2 ^ 27, ¬ Mapped before pgtbl page →
    ¬ Written va sz page → ¬ Mapped after pgtbl page
  /-- The valid entries of an installed table are those on the way to written pages. -/
  installed : ∀ path table position, treePath () path → position < 512 →
    Installed pgtbl before after path table →
    has permV (word after table position) →
    ∃ page, Written va sz page ∧
      path ++ [position] <+: Vm.path page ++ [index 0 page]

/-! ## The condition -/

/--
The page `kalloc` would hand out next has no valid entry, except for those the
predicate allows.
-/
def CleanPage (cfg : Config) (m : Machine) (allowed : Nat → Prop) : Prop :=
  ∀ position < 512,
    has permV (word (cfg.kalloc m).2.mem (cfg.kalloc m).1 position) →
    allowed position

/--
One iteration of `create_mapping` finds its tables, or pages to make them of:
none with a valid entry for the middle level, and for the last level none with
a valid entry outside the pages the call writes.
-/
def CleanStep (cfg : Config) (m : Machine) (pgtbl va : Nat)
    (written : Nat → Prop) : Prop :=
  (word m.mem pgtbl (vpn 2 va) &&& permV = 0 →
    CleanPage cfg m fun _ => False) ∧
  let (pmd, m) := nextTable cfg m pgtbl (vpn 2 va)
  (word m.mem pmd (vpn 1 va) &&& permV = 0 →
    CleanPage cfg m fun position =>
      ∃ page < 2 ^ 27, written page ∧ path page = path (pageNumber va) ∧
        index 0 page = position)

/-- The iterations of a call are clean, each in the state the ones before it leave. -/
def CleanPages (cfg : Config) (pgtbl va pa perm : Nat) (written : Nat → Prop) :
    Nat → Nat → Machine → Prop
  | 0, _, _ => True
  | count + 1, offset, m =>
      CleanStep cfg m pgtbl ((va + offset) % 2 ^ 64) written ∧
        CleanPages cfg pgtbl va pa perm written count (offset + 4096)
          (mapPage cfg m pgtbl ((va + offset) % 2 ^ 64)
            ((pa + offset) % 2 ^ 64) perm).2

/-- The pages a call turns into tables are clean. -/
def CleanCall (cfg : Config) (m : Machine) (pgtbl va pa sz perm : Nat) : Prop :=
  CleanPages cfg pgtbl va pa perm (Written va sz) ((sz + 4095) / 4096) 0 m

/-! ## What a call has done so far -/

section Call

variable {cfg : Config} {pgtbl : Nat} {written : Nat → Prop}
    {before m : Machine}

/-- The invariant of the loop, against the state `before` the call. -/
structure CallInv (top pgtbl : Nat) (written : Nat → Prop)
    (before m : Machine) : Prop where
  allocator : ∃ multi, Allocator top multi m
  tables : Tables (fun _ : Unit => pgtbl) treePath m
  mapped : ∀ page < 2 ^ 27, Mapped m.mem pgtbl page →
    Mapped before.mem pgtbl page ∨ written page
  installed : ∀ path table position, treePath () path → position < 512 →
    Installed pgtbl before.mem m.mem path table →
    has permV (word m.mem table position) →
    ∃ page, written page ∧
      path ++ [position] <+: Vm.path page ++ [index 0 page]

theorem treePath_path (page : Nat) : treePath () (path page) := by
  refine ⟨Nat.le_refl 2, ?_⟩
  intro position member
  simp only [path, List.mem_cons, List.not_mem_nil, or_false] at member
  rcases member with rfl | rfl
  · exact index_lt _ _
  · exact index_lt _ _

theorem treePath_closed : PrefixClosed treePath := by
  rintro - path position ⟨short, small⟩
  rw [List.length_append, List.length_singleton] at short
  exact ⟨by omega, fun other member => small other (by simp [member])⟩

/-- The tables of a tree are told apart by their paths. -/
theorem table_ne (tables : Tables (fun _ : Unit => pgtbl) treePath m)
    {left right : List Nat} {table other : Nat} (leftInside : treePath () left)
    (rightInside : treePath () right) (different : left ≠ right)
    (first : walk (findTable m.mem) pgtbl left = some table)
    (second : walk (findTable m.mem) pgtbl right = some other) :
    table ≠ other := by
  rintro rfl
  exact different (tables.forest.unique () left () right table leftInside
    rightInside first second).2

/-- Hanging a clean table below an entry on the way to a written page. -/
theorem CallInv.hang (inv : CallInv cfg.top pgtbl written before m)
    {multi : Set Nat} {zeroed : Bool} {above : List Nat}
    {table position fresh page : Nat} {after : Machine}
    (hung : Hung cfg.top multi zeroed m table position fresh after)
    (onPath : above ++ [position] <+: path page) (isWritten : written page)
    (reached : walk (findTable m.mem) pgtbl above = some table)
    (clean : ∀ position' < 512, has permV (word after.mem fresh position') →
      (above ++ [position]).length = 2 ∧
      ∃ page < 2 ^ 27, written page ∧ path page = above ++ [position] ∧
        index 0 page = position') :
    CallInv cfg.top pgtbl written before after ∧
      walk (findTable after.mem) pgtbl (above ++ [position]) = some fresh := by
  have inside : treePath () (above ++ [position]) := by
    refine ⟨onPath.length_le, ?_⟩
    exact fun other member =>
      (treePath_path page).2 other (onPath.subset member)
  have prefixInside := treePath_closed () above position inside
  have tableLive := inv.tables.reached_live prefixInside reached
  have short : above.length < 2 := by
    have bound := inside.1
    rw [List.length_append, List.length_singleton] at bound
    omega
  have positionSmall := inv.tables.last_small inside
  have empty : ∀ next, treePath () (above ++ [position] ++ [next]) →
      ¬ has permV (word after.mem fresh next) := by
    intro next deeper valid
    have two := (clean next (inv.tables.last_small deeper) valid).1
    have bound := deeper.1
    rw [List.length_append, two, List.length_singleton] at bound
    omega
  have walks {other : List Nat} (otherInside : treePath () other) (last : Nat) :
      walk (findTable after.mem) pgtbl other = some last ↔
        walk (findTable m.mem) pgtbl other = some last ∨
          (other = above ++ [position] ∧ last = fresh) := by
    have added := inv.tables.walk_hung hung inside reached empty
      (otherInside : treePath () other) last
    simpa using added
  refine ⟨⟨⟨multi, hung.allocator⟩, inv.tables.hung_tables hung inside reached
    empty, ?_, ?_⟩, (walks inside fresh).2 (Or.inr ⟨rfl, rfl⟩)⟩
  · intro other otherSmall isMapped
    cases toLast : walk (findTable after.mem) pgtbl (path other) with
    | none =>
        rw [Mapped, leaf, toLast] at isMapped
        simp [has] at isMapped
    | some last =>
        rw [Mapped, leaf_of_walk toLast] at isMapped
        rcases (walks (treePath_path other) last).1 toLast with old | ⟨same, rfl⟩
        · refine inv.mapped other otherSmall ?_
          have notTable : last ≠ table := by
            refine table_ne inv.tables (treePath_path other) prefixInside ?_ old
              reached
            intro same
            rw [← same] at short
            exact absurd short (Nat.lt_irrefl 2)
          have notFresh : last ≠ fresh := fun same => hung.isFresh
            (same ▸ inv.tables.reached_live (treePath_path other) old)
          rw [Mapped, leaf_of_walk old]
          rwa [(hung.sameFrame positionSmall notTable notFresh).word
            (index_lt 0 other)] at isMapped
        · obtain ⟨-, source, sourceSmall, sourceWritten, paths, lasts⟩ :=
            clean (index 0 other) (index_lt 0 other) isMapped
          have equal : source = other :=
            eq_of_indices sourceSmall otherSmall (paths.trans same.symm) lasts
          exact Or.inr (equal ▸ sourceWritten)
  · intro other last position' otherInside small' isNew valid
    rcases (walks otherInside last).1 isNew.2 with old | ⟨rfl, rfl⟩
    · have notFresh : last ≠ fresh := fun same => hung.isFresh
        (same ▸ inv.tables.reached_live otherInside old)
      by_cases atTable : last = table
      · subst atTable
        obtain ⟨-, rfl⟩ := inv.tables.forest.unique () other () above last
          otherInside prefixInside old reached
        by_cases here : position' = position
        · subst here
          exact ⟨page, isWritten, onPath.trans (List.prefix_append _ _)⟩
        · rw [hung.word_table tableLive small' here] at valid
          exact inv.installed other last position' otherInside small'
            ⟨isNew.1, old⟩ valid
      · rw [(hung.sameFrame positionSmall atTable notFresh).word small'] at valid
        exact inv.installed other last position' otherInside small'
          ⟨isNew.1, old⟩ valid
    · obtain ⟨-, source, -, sourceWritten, paths, lasts⟩ :=
        clean position' small' valid
      refine ⟨source, sourceWritten, ?_⟩
      rewrite [paths, lasts]
      exact List.prefix_rfl

/-- Writing the entry of a written page into its last table. -/
theorem CallInv.write (inv : CallInv cfg.top pgtbl written before m)
    (value : Nat) {table page : Nat} {after : Machine} (small : page < 2 ^ 27)
    (isWritten : written page)
    (reached : walk (findTable m.mem) pgtbl (path page) = some table)
    (buddy : after.buddy = m.buddy)
    (mem : after.mem = setWord m.mem table (index 0 page) value) :
    CallInv cfg.top pgtbl written before after := by
  obtain ⟨multi, allocator⟩ := inv.allocator
  have liveEq : ∀ frame, Live m frame → Live after frame := by
    intro frame live
    rwa [Live, buddy]
  have otherFrame : ∀ frame, frame ≠ table → SameFrame m.mem after.mem frame := by
    intro frame different
    rw [mem]
    exact sameFrame_setWord (index_lt 0 page) different
  have passed : ∀ id path position frame, treePath id (path ++ [position]) →
      walk (findTable m.mem) pgtbl path = some frame →
      SameFrame m.mem after.mem frame := by
    intro _ path position frame inside toFrame
    refine otherFrame frame ?_
    refine table_ne inv.tables (treePath_closed () path position inside)
      (treePath_path page) ?_ toFrame reached
    rintro rfl
    have bound := inside.1
    simp [Vm.path] at bound
  obtain ⟨tables, walks⟩ :=
    inv.tables.congr passed fun frame _ live => liveEq frame live
  refine ⟨⟨multi, allocator.small, ?_, ?_⟩, tables, ?_, ?_⟩
  · rw [buddy]
    exact allocator.pages
  · rw [buddy]
    exact allocator.zero_live
  · intro other otherSmall isMapped
    by_cases here : other = page
    · exact Or.inr (here ▸ isWritten)
    · refine inv.mapped other otherSmall ?_
      have sameWalk := walks () (path other) (treePath_path other)
      cases toLast : walk (findTable m.mem) pgtbl (path other) with
      | none =>
          rw [Mapped, leaf, sameWalk.trans toLast] at isMapped
          simp [has] at isMapped
      | some last =>
          rw [Mapped, leaf_of_walk (sameWalk.trans toLast)] at isMapped
          rw [Mapped, leaf_of_walk toLast]
          by_cases atTable : last = table
          · subst atTable
            have paths := (inv.tables.forest.unique () (path other) ()
              (path page) last (treePath_path other) (treePath_path page) toLast
              reached).2
            have lasts : index 0 other ≠ index 0 page := fun same =>
              here (eq_of_indices otherSmall small paths same)
            rwa [mem, word_setWord_of_ne lasts] at isMapped
          · rwa [(otherFrame last atTable).word (index_lt 0 other)] at isMapped
  · intro other last position otherInside small' isNew valid
    have old := (walks () other otherInside).symm.trans isNew.2
    by_cases atTable : last = table
    · subst atTable
      obtain ⟨-, rfl⟩ := inv.tables.forest.unique () other () (path page) last
        otherInside (treePath_path page) old reached
      by_cases here : position = index 0 page
      · subst here
        exact ⟨page, isWritten, List.prefix_rfl⟩
      · rw [mem, word_setWord_of_ne here] at valid
        exact inv.installed (path page) last position otherInside small'
          ⟨isNew.1, old⟩ valid
    · rw [(otherFrame last atTable).word small'] at valid
      exact inv.installed other last position otherInside small' ⟨isNew.1, old⟩
        valid

/-- The conditions speak of the page as the table it becomes. -/
theorem word_nextTable_fresh {table position other : Nat}
    (absent : word m.mem table position &&& permV = 0) (positionSmall : position < 512)
    (small : other < 512)
    (different : (nextTable cfg m table position).1 ≠ table) :
    word (nextTable cfg m table position).2.mem
        (nextTable cfg m table position).1 other =
      word (cfg.kalloc m).2.mem (cfg.kalloc m).1 other := by
  simp only [nextTable, if_pos absent] at different ⊢
  exact (sameFrame_setWord positionSmall different).word small

/-- A level of the loop body keeps the invariant and finds the next table. -/
theorem CallInv.next (inv : CallInv cfg.top pgtbl written before m)
    (above : List Nat) (table position : Nat) {page : Nat}
    (onPath : above ++ [position] <+: path page) (isWritten : written page)
    (reached : walk (findTable m.mem) pgtbl above = some table)
    (clean : word m.mem table position &&& permV = 0 →
      CleanPage cfg m fun position' =>
        (above ++ [position]).length = 2 ∧
        ∃ page < 2 ^ 27, written page ∧ path page = above ++ [position] ∧
          index 0 page = position')
    (succeeds : (nextTable cfg m table position).2.oom = false) :
    CallInv cfg.top pgtbl written before (nextTable cfg m table position).2 ∧
      walk (findTable (nextTable cfg m table position).2.mem) pgtbl
        (above ++ [position]) = some (nextTable cfg m table position).1 ∧
      (nextTable cfg m table position).1 ≠ nullFrame := by
  have inside : treePath () (above ++ [position]) :=
    ⟨onPath.length_le, fun other member =>
      (treePath_path page).2 other (onPath.subset member)⟩
  have tableLive := inv.tables.reached_live
    (treePath_closed () above position inside) reached
  have positionSmall := inv.tables.last_small inside
  obtain ⟨multi, allocator⟩ := inv.allocator
  rcases nextTable_cases allocator succeeds with ⟨next, found, result⟩ | hung
  · have toNext := walk_snoc_eq_some.2 ⟨table, reached, found⟩
    rw [result]
    refine ⟨inv, toNext, ?_⟩
    exact (allocator.lt_nullFrame (inv.tables.reached_live inside toNext)).ne
  · have absent : word m.mem table position &&& permV = 0 := by
      simpa [has] using hung.absent
    have notTable : (nextTable cfg m table position).1 ≠ table := fun same =>
      hung.isFresh (by rwa [same])
    obtain ⟨kept, toFresh⟩ := inv.hang hung onPath isWritten reached (by
      intro position' small' valid
      rw [word_nextTable_fresh absent positionSmall small' notTable] at valid
      exact clean absent position' small' valid)
    exact ⟨kept, toFresh, (hung.allocator.lt_nullFrame hung.live_fresh).ne⟩

/-- The body of the loop keeps the invariant. -/
theorem CallInv.mapPage (inv : CallInv cfg.top pgtbl written before m)
    {va pa perm : Nat} (isWritten : written (pageNumber va))
    (clean : CleanStep cfg m pgtbl va written)
    (succeeds : (mapPage cfg m pgtbl va pa perm).2.oom = false) :
    (Vm.mapPage cfg m pgtbl va pa perm).1 = false ∧
      CallInv cfg.top pgtbl written before
        (Vm.mapPage cfg m pgtbl va pa perm).2 := by
  have indices : ∀ level < 3, vpn level va = index level (pageNumber va) := by
    intro level small
    rw [vpn_eq_index]
    obtain rfl | rfl | rfl : level = 0 ∨ level = 1 ∨ level = 2 := by omega
    all_goals simp only [index, pageNumber]; omega
  obtain ⟨firstSucceeds, secondSucceeds⟩ := mapPage_succeeds succeeds
  have whole : path (pageNumber va) = [vpn 2 va] ++ [vpn 1 va] := by
    rw [indices 2 (by decide), indices 1 (by decide)]
    rfl
  have half : [] ++ [vpn 2 va] <+: path (pageNumber va) := by
    rw [whole]
    exact List.prefix_append _ _
  obtain ⟨middle, toPmd, pmdFound⟩ := inv.next [] pgtbl (vpn 2 va) half
    isWritten rfl
    (fun absent position small valid =>
      (clean.1 absent position small valid).elim) firstSucceeds
  obtain ⟨last, toPte, pteFound⟩ := middle.next [vpn 2 va] _ (vpn 1 va)
    (whole ▸ List.prefix_rfl) isWritten toPmd
    (by
      intro absent position small valid
      obtain ⟨page, pageSmall, pageWritten, paths, lasts⟩ :=
        clean.2 absent position small valid
      exact ⟨rfl, page, pageSmall, pageWritten, paths.trans whole, lasts⟩)
    (secondSucceeds pmdFound)
  have outcome := mapPage_eq pa perm (Prod.mk.eta).symm (Prod.mk.eta).symm
    pmdFound pteFound
  rw [← whole] at toPte
  have bound : pageNumber va < 2 ^ 27 := Nat.mod_lt _ (by decide)
  rw [outcome]
  refine ⟨rfl, last.write (entry ((pa >>> 12) &&& ppnMask) perm) bound
    isWritten toPte rfl ?_⟩
  rw [← indices 0 (by decide)]

/-- The loop keeps the invariant. -/
theorem CallInv.mapPages (inv : CallInv cfg.top pgtbl written before m)
    {va pa perm count offset : Nat}
    (isWritten : ∀ k < count, written (pageNumber (va + (offset + k * 4096))))
    (clean : CleanPages cfg pgtbl va pa perm written count offset m)
    (succeeds : (mapPages cfg pgtbl va pa perm count offset m).2.oom = false) :
    CallInv cfg.top pgtbl written before
      (Vm.mapPages cfg pgtbl va pa perm count offset m).2 := by
  induction count generalizing offset m with
  | zero => exact inv
  | succ count induction =>
      have here : written (pageNumber ((va + offset) % 2 ^ 64)) := by
        have first := isWritten 0 (Nat.succ_pos _)
        rw [Nat.zero_mul, Nat.add_zero] at first
        have same : pageNumber ((va + offset) % 2 ^ 64) =
            pageNumber (va + offset) := by
          simp only [pageNumber]
          omega
        rwa [same]
      obtain ⟨goesOn, kept⟩ := inv.mapPage here clean.1
        (mapPages_first succeeds)
      rw [Vm.mapPages] at succeeds ⊢
      dsimp only at succeeds ⊢
      rw [goesOn] at succeeds ⊢
      refine induction kept ?_ clean.2 succeeds
      intro k within
      have later := isWritten (k + 1) (by omega)
      have shift : offset + (k + 1) * 4096 = offset + 4096 + k * 4096 := by
        omega
      rwa [shift] at later

end Call

/-! ## Runs -/

/-- What happens to the machine, seen from one page table. -/
inductive TableEvent where
  /-- A call of `create_mapping` on the table. -/
  | createMapping (va pa sz perm : Nat)
  /-- Anything else: other allocations and releases, and writes to other pages. -/
  | environment
deriving DecidableEq, Repr

/-- The frames of the tables are kept, in the memory and in the allocator. -/
structure Environment (cfg : Config) (pgtbl : Nat) (m next : Machine) :
    Prop where
  allocator : ∃ multi, Allocator cfg.top multi next
  tables : ∀ frame,
    Reached (fun _ : Unit => pgtbl) treePath (findTable m.mem) frame →
    Live next frame ∧ SameFrame m.mem next.mem frame

/-- A step of the machine; every allocation of a call succeeds. -/
def TableStep (cfg : Config) (pgtbl : Nat) (m : Machine) :
    TableEvent → Machine → Prop
  | .createMapping va pa sz perm, next =>
      createMapping cfg m pgtbl va pa sz perm = .ok next ∧ next.oom = false
  | .environment, next => Environment cfg pgtbl m next

/-- The calls turn clean pages into tables. -/
def CleanEvent (cfg : Config) (pgtbl : Nat) (m : Machine) : TableEvent → Prop
  | .createMapping va pa sz perm => CleanCall cfg m pgtbl va pa sz perm
  | .environment => True

/-- A page table whose tables form a tree of pages that are in use. -/
structure TableInv (cfg : Config) (pgtbl : Nat) (m : Machine) : Prop where
  allocator : ∃ multi, Allocator cfg.top multi m
  tables : Tables (fun _ : Unit => pgtbl) treePath m

/-- Only the root is reached in a table without entries. -/
theorem walk_ofEmpty {pgtbl : Nat} {mem : Bytes}
    (empty : ∀ position < 512, ¬ has permV (word mem pgtbl position)) :
    ∀ path table, treePath () path →
      walk (findTable mem) pgtbl path = some table → path = [] ∧ table = pgtbl := by
  intro path table inside reached
  cases path with
  | nil => exact ⟨rfl, (Option.some_inj.1 reached).symm⟩
  | cons position path =>
      have absent := findTable_eq_none.2
        (empty position (inside.2 position (by simp)))
      rw [walk, absent] at reached
      cases reached

/-- A cleared page in use is a page table without entries. -/
theorem TableInv.ofEmpty {cfg : Config} {pgtbl : Nat} {m : Machine}
    {multi : Set Nat} (allocator : Allocator cfg.top multi m)
    (live : Live m pgtbl)
    (empty : ∀ position < 512, ¬ has permV (word m.mem pgtbl position)) :
    TableInv cfg pgtbl m := by
  have onlyRoot := walk_ofEmpty empty
  refine ⟨⟨multi, allocator⟩, ⟨treePath_closed, ?_⟩, ?_, ?_⟩
  · intro _ left _ right table leftInside rightInside first second
    obtain ⟨rfl, -⟩ := onlyRoot left table leftInside first
    obtain ⟨rfl, -⟩ := onlyRoot right table rightInside second
    exact ⟨rfl, rfl⟩
  · exact fun _ path inside => inside.2
  · rintro frame ⟨_, path, inside, reached⟩
    obtain ⟨-, rfl⟩ := onlyRoot path frame inside reached
    exact live

section Runs

variable {cfg : Config} {pgtbl : Nat} {m next : Machine}

/-- A clean call keeps the tree and introduces no stray translation. -/
theorem TableInv.createMapping (inv : TableInv cfg pgtbl m)
    {va pa sz perm : Nat} (clean : CleanCall cfg m pgtbl va pa sz perm)
    (returns : createMapping cfg m pgtbl va pa sz perm = .ok next)
    (succeeds : next.oom = false) :
    TableInv cfg pgtbl next ∧ NoStray pgtbl va sz m.mem next.mem := by
  have start : CallInv cfg.top pgtbl (Written va sz) m m := by
    refine ⟨inv.allocator, inv.tables, fun _ _ isMapped => Or.inl isMapped, ?_⟩
    intro path table position _ _ isNew
    cases isNew.1.symm.trans isNew.2
  obtain rfl := createMapping_ok returns
  have isWritten : ∀ k < (sz + 4095) / 4096,
      Written va sz (pageNumber (va + (0 + k * 4096))) :=
    fun k within => ⟨k, by omega, by rw [Nat.zero_add]⟩
  have done := start.mapPages isWritten clean succeeds
  refine ⟨⟨done.allocator, done.tables⟩, ?_, done.installed⟩
  intro page small notMapped notWritten isMapped
  exact (done.mapped page small isMapped).elim notMapped notWritten

theorem TableInv.environment (inv : TableInv cfg pgtbl m)
    (step : Environment cfg pgtbl m next) : TableInv cfg pgtbl next := by
  refine ⟨step.allocator, (inv.tables.congr ?_ ?_).1⟩
  · intro _ path position frame inside reached
    exact (step.tables frame
      ⟨(), path, treePath_closed () path position inside, reached⟩).2
  · exact fun frame reached _ => (step.tables frame reached).1

/-- The tree survives every step of a run with clean calls. -/
theorem TableInv.run {start : Machine} {events : List TableEvent}
    (inv : TableInv cfg pgtbl start)
    (run : Run (Guarded (TableStep cfg pgtbl) (CleanEvent cfg pgtbl)) start
      events m) : TableInv cfg pgtbl m := by
  refine run.invariant inv ?_
  rintro state event after kept ⟨taken, clean⟩
  cases event with
  | createMapping va pa sz perm =>
      exact (kept.createMapping clean taken.1 taken.2).1
  | environment => exact kept.environment taken

/--
In every run whose calls of `create_mapping` turn only clean pages into tables,
no such call introduces a stray translation.
-/
theorem createMapping_noStray {start : Machine} {events : List TableEvent}
    {va pa sz perm : Nat} (inv : TableInv cfg pgtbl start)
    (run : Run (Guarded (TableStep cfg pgtbl) (CleanEvent cfg pgtbl)) start
      events m)
    (taken : Guarded (TableStep cfg pgtbl) (CleanEvent cfg pgtbl) m
      (.createMapping va pa sz perm) next) :
    NoStray pgtbl va sz m.mem next.mem :=
  ((inv.run run).createMapping taken.2 taken.1.1 taken.1.2).2

end Runs

/-! ## A recycled page -/

namespace RecycledPage

/-- Eight pages, of which the first two hold the kernel and the root table. -/
def config : Config where
  top := 3
  reserved := 2
  refCnt := phyStart
  swapper := ramBase + 1
  sramdisk := phyStart
  fill := .asFound
  absentNull := false

/-- Memory in which only the page after the next one to be handed out is not zero. -/
def machine (dirt : Byte) : Machine where
  buddy := Buddy.reserve 2 (Buddy.fresh (2 ^ 3))
  mem := fun address =>
    if address = 4096 * (ramBase + 3) + 8 * 7 then dirt else 0
  oom := false

/-- The root table. -/
abbrev root : Nat := ramBase + 1

/-- The state after mapping page `0`. -/
def mapped (dirt : Byte) : Machine :=
  (mapPages config root 0 0x80004000 0xdf 1 0 (machine dirt)).2

/-- A call for one page has one iteration. -/
theorem createMapping_one_page (cfg : Config) (m : Machine) (va pa perm : Nat) :
    createMapping cfg m root va pa 4096 perm =
      .ok (mapPages cfg root va pa perm 1 0 m).2 :=
  if_pos (Or.inr (by decide))

theorem createMapping_returns (dirt : Byte) :
    createMapping config (machine dirt) root 0 0x80004000 4096 0xdf =
      .ok (mapped dirt) :=
  createMapping_one_page config (machine dirt) 0 0x80004000 0xdf

theorem machine_counted (dirt : Byte) {pfn : Nat} (small : pfn < 2) :
    0 < (machine dirt).buddy.refCnt pfn := by
  have counts := (@Buddy.Pages.reserve 3 2 (by decide) (by decide)).2
  rw [machine, counts, if_pos small]
  exact Nat.one_pos

theorem machine_allocator (dirt : Byte) :
    Allocator config.top ∅ (machine dirt) :=
  ⟨by decide, (@Buddy.Pages.reserve 3 2 (by decide) (by decide)).1,
    machine_counted dirt (by decide)⟩

theorem machine_live (dirt : Byte) : Live (machine dirt) root :=
  ⟨by decide, machine_counted dirt (by decide)⟩

theorem machine_empty (dirt : Byte) :
    ∀ position < 512, ¬ has permV (word (machine dirt).mem root position) := by
  intro position small
  have zero : word (machine dirt).mem root position = 0 := by
    refine Bytes.littleEndian_eq_zero fun address _ upper => if_neg ?_
    simp only [root, ramBase] at upper ⊢
    omega
  rw [zero]
  decide

theorem machine_inv (dirt : Byte) : TableInv config root (machine dirt) :=
  TableInv.ofEmpty (machine_allocator dirt) (machine_live dirt)
    (machine_empty dirt)

/-- Memory full of bytes that are no valid entries. -/
def littered : Machine where
  buddy := Buddy.reserve 2 (Buddy.fresh (2 ^ 3))
  mem := fun _ => 0xde
  oom := false

/-- Then the page at `0x40000000` is mapped. -/
def once : Machine :=
  (mapPages config root 0x40000000 0x80004000 0xdf 1 0 littered).2

/-- Then page `0`. -/
def twice : Machine :=
  (mapPages config root 0 0x80005000 0xdf 1 0 once).2

theorem littered_allocator : Allocator config.top ∅ littered :=
  ⟨by decide, (@Buddy.Pages.reserve 3 2 (by decide) (by decide)).1,
    machine_counted 0 (by decide)⟩

theorem littered_live : Live littered root :=
  ⟨by decide, machine_counted 0 (by decide)⟩

theorem littered_empty :
    ∀ position < 512, ¬ has permV (word littered.mem root position) := by
  decide +kernel

/-- The next page that is handed out has no valid entry. -/
abbrev NextClean (m : Machine) : Prop :=
  ∀ position < 512,
    ¬ has permV (word (config.kalloc m).2.mem (config.kalloc m).1 position)

theorem NextClean.page {m : Machine} (clean : NextClean m)
    (allowed : Nat → Prop) : CleanPage config m allowed :=
  fun position small valid => absurd valid (clean position small)

theorem once_taken :
    Guarded (TableStep config root) (CleanEvent config root) littered
      (.createMapping 0x40000000 0x80004000 4096 0xdf) once := by
  have first : NextClean littered := by decide +kernel
  have second : NextClean (nextTable config littered root 1).2 := by
    decide +kernel
  exact ⟨⟨createMapping_one_page _ _ _ _ _, by decide +kernel⟩,
    ⟨fun _ => first.page _, fun _ => second.page _⟩, trivial⟩

theorem twice_taken :
    Guarded (TableStep config root) (CleanEvent config root) once
      (.createMapping 0 0x80005000 4096 0xdf) twice := by
  have first : NextClean once := by decide +kernel
  have second : NextClean (nextTable config once root 0).2 := by
    decide +kernel
  exact ⟨⟨createMapping_one_page _ _ _ _ _, by decide +kernel⟩,
    ⟨fun _ => first.page _, fun _ => second.page _⟩, trivial⟩

/-- Mapping page `0` after another call, with pages for the tables that are not zero. -/
theorem createMapping_noStray_littered :
    NoStray root 0 4096 once.mem twice.mem :=
  createMapping_noStray
    (TableInv.ofEmpty littered_allocator littered_live littered_empty)
    (Run.single once_taken) twice_taken

/-- A user page whose bytes survive in the allocator maps page `7` as well. -/
theorem createMapping_stray :
    ∃ next, createMapping config (machine 0xdf) root 0 0x80004000 4096 0xdf =
        .ok next ∧ next.oom = false ∧
      TableInv config root (machine 0xdf) ∧
      ¬ NoStray root 0 4096 (machine 0xdf).mem next.mem := by
  refine ⟨mapped 0xdf, createMapping_returns 0xdf, by decide,
    machine_inv 0xdf, ?_⟩
  rintro ⟨unmapped, -⟩
  refine unmapped 7 (by decide) (by decide) ?_ (by decide)
  rintro ⟨k, within, page⟩
  obtain rfl : k = 0 := by omega
  exact absurd page (by decide)

end RecycledPage

end TinyRiscvOs.Vm
