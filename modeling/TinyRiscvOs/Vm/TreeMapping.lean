import TinyRiscvOs.Vm.StrayMapping

/-!
# What `create_mapping` maps

The entry of every page after a call of `create_mapping`: a page the loop
visits has the entry of its last visit, and a page that had its tables and is
not visited keeps its entry.  `find_pte` and the walk of the processor both
read these entries.  From them follow which bytes a call covers.
-/

namespace TinyRiscvOs.Vm

open TinyRiscvOs.Lib
open TinyRiscvOs.Mm

/-- A tree of tables whose entries above the last level are links and nothing else. -/
structure TreeInv (cfg : Config) (pgtbl : Nat) (m : Machine) : Prop
    extends TableInv cfg pgtbl m where
  links : ∀ path position table, treePath () (path ++ [position]) →
    walk (findTable m.mem) pgtbl path = some table →
    has permV (word m.mem table position) →
    word m.mem table position = entry (entryPpn (word m.mem table position)) permV

/-- The tables on the way to the entry of a page are there. -/
def Present (mem : Bytes) (pgtbl page : Nat) : Prop :=
  ∃ table, walk (findTable mem) pgtbl (path page) = some table

/-- What a part of a call does to pages other than those it visits. -/
structure Extends (pgtbl : Nat) (written visited : Nat → Prop)
    (m after : Machine) : Prop where
  walk : ∀ path last, treePath () path →
    walk (findTable m.mem) pgtbl path = some last →
    walk (findTable after.mem) pgtbl path = some last
  kept : ∀ page < 2 ^ 27, ¬ visited page → Present m.mem pgtbl page →
    leaf after.mem pgtbl page = leaf m.mem pgtbl page
  stray : ∀ page < 2 ^ 27, ¬ written page → Mapped after.mem pgtbl page →
    Mapped m.mem pgtbl page

namespace Extends

variable {pgtbl : Nat} {written visited more : Nat → Prop}
    {m middle after : Machine}

theorem refl (pgtbl : Nat) (written visited : Nat → Prop) (m : Machine) :
    Extends pgtbl written visited m m :=
  ⟨fun _ _ _ => id, fun _ _ _ _ => rfl, fun _ _ _ => id⟩

theorem present (extension : Extends pgtbl written visited m after) {page : Nat}
    (isPresent : Present m.mem pgtbl page) : Present after.mem pgtbl page := by
  obtain ⟨table, reached⟩ := isPresent
  exact ⟨table, extension.walk _ table (treePath_path page) reached⟩

theorem trans (first : Extends pgtbl written visited m middle)
    (second : Extends pgtbl written more middle after) :
    Extends pgtbl written (fun page => visited page ∨ more page) m after where
  walk path last inside reached :=
    second.walk path last inside (first.walk path last inside reached)
  kept page small elsewhere isPresent :=
    (second.kept page small (fun here => elsewhere (Or.inr here))
      (first.present isPresent)).trans
      (first.kept page small (fun here => elsewhere (Or.inl here)) isPresent)
  stray page small notWritten isMapped :=
    first.stray page small notWritten
      (second.stray page small notWritten isMapped)

theorem mono (extension : Extends pgtbl written visited m after)
    (wider : ∀ page, visited page → more page) :
    Extends pgtbl written more m after where
  walk := extension.walk
  kept page small elsewhere :=
    extension.kept page small fun here => elsewhere (wider page here)
  stray := extension.stray

end Extends

/-! ## Page numbers -/

theorem pageNumber_lt (addr : Nat) : pageNumber addr < 2 ^ 27 :=
  Nat.mod_lt _ (by decide)

theorem pageNumber_mod (addr : Nat) :
    pageNumber (addr % 2 ^ 64) = pageNumber addr := by
  simp only [pageNumber]
  omega

/-- The indices of an address are those of its page number. -/
theorem vpn_eq_index_pageNumber {level : Nat} (small : level < 3) (addr : Nat) :
    vpn level addr = index level (pageNumber addr) := by
  rw [vpn_eq_index]
  obtain rfl | rfl | rfl : level = 0 ∨ level = 1 ∨ level = 2 := by omega
  all_goals simp only [index, pageNumber]; omega

theorem path_pageNumber (addr : Nat) :
    path (pageNumber addr) = [vpn 2 addr, vpn 1 addr] := by
  rw [path, vpn_eq_index_pageNumber (by decide) addr,
    vpn_eq_index_pageNumber (by decide) addr]

/-- `find_pte` finds the entry of the page number. -/
theorem findPte_of_walk {mem : Bytes} {pgtbl addr table : Nat}
    (reached : walk (findTable mem) pgtbl (path (pageNumber addr)) =
      some table) :
    findPte mem pgtbl addr = some (table, vpn 0 addr) := by
  rw [findPte_eq_walk, path, ← vpn_eq_index, ← vpn_eq_index, ← vpn_eq_index,
    ← path_pageNumber, reached]
  rfl

theorem leaf_pageNumber {mem : Bytes} {pgtbl addr table : Nat}
    (reached : walk (findTable mem) pgtbl (path (pageNumber addr)) =
      some table) :
    leaf mem pgtbl (pageNumber addr) = word mem table (vpn 0 addr) := by
  rw [leaf_of_walk reached, vpn_eq_index_pageNumber (by decide)]

/-! ## The walk of the processor -/

/-- A valid leaf entry: readable, or executable and not writable. -/
def LeafEntry (old : Nat) : Prop :=
  has permV old ∧ (has permR old ∨ has permX old ∧ ¬ has permW old)

instance (old : Nat) : Decidable (LeafEntry old) :=
  inferInstanceAs (Decidable (_ ∧ _))

/-- A leaf entry is what its flags make it. -/
theorem leafEntry_entry (ppn perm : Nat) :
    LeafEntry (entry ppn perm) ↔ LeafEntry perm := by
  have flagV : permV = 2 ^ 0 := by decide
  have flagR : permR = 2 ^ 1 := by decide
  have flagW : permW = 2 ^ 2 := by decide
  have flagX : permX = 2 ^ 3 := by decide
  rw [LeafEntry, LeafEntry, flagV, flagR, flagW, flagX,
    has_entry (by decide), has_entry (by decide), has_entry (by decide),
    has_entry (by decide)]

theorem Mapped.present {mem : Bytes} {pgtbl page : Nat}
    (isMapped : Mapped mem pgtbl page) : Present mem pgtbl page := by
  cases reached : walk (findTable mem) pgtbl (path page) with
  | some table => exact ⟨table, reached⟩
  | none =>
      rw [Mapped, leaf, reached] at isMapped
      simp [has] at isMapped

namespace TreeInv

variable {cfg : Config} {pgtbl : Nat} {m after : Machine}
    {written : Nat → Prop}

/-- The walk passes a link. -/
theorem pageWalk_link (inv : TreeInv cfg pgtbl m) (path : List Nat)
    {table next level addr : Nat}
    (inside : treePath () (path ++ [vpn level addr]))
    (reached : walk (findTable m.mem) pgtbl path = some table)
    (found : findTable m.mem table (vpn level addr) = some next) :
    pageWalk m.mem addr (level + 1) table = pageWalk m.mem addr level next := by
  obtain ⟨valid, ppn⟩ := findTable_eq_some.1 found
  have link := inv.links path (vpn level addr) table inside reached valid
  have flagR : permR = 2 ^ 1 := by decide
  have flagW : permW = 2 ^ 2 := by decide
  have flagX : permX = 2 ^ 3 := by decide
  have noR : ¬ has permR (word m.mem table (vpn level addr)) := by
    rw [link, flagR, has_entry (by decide)]
    decide
  have noW : ¬ has permW (word m.mem table (vpn level addr)) := by
    rw [link, flagW, has_entry (by decide)]
    decide
  have noX : ¬ has permX (word m.mem table (vpn level addr)) := by
    rw [link, flagX, has_entry (by decide)]
    decide
  simp only [pageWalk, valid, noR, noW, noX, ppn, not_true, and_false, or_self,
    if_false]

/-- The walk stops at an invalid entry. -/
theorem pageWalk_absent {mem : Bytes} {table level addr : Nat}
    (absent : findTable mem table (vpn level addr) = none) :
    pageWalk mem addr (level + 1) table = none := by
  have invalid := findTable_eq_none.1 absent
  simp only [pageWalk, invalid, not_false_eq_true, true_or, if_true]

/-- The three-level walk reads the entry of the page. -/
theorem pageWalk_eq (inv : TreeInv cfg pgtbl m) (addr : Nat) :
    pageWalk m.mem addr 3 pgtbl =
      if LeafEntry (leaf m.mem pgtbl (pageNumber addr)) then
        some (leaf m.mem pgtbl (pageNumber addr), 0)
      else none := by
  have inside := treePath_path (pageNumber addr)
  have split : path (pageNumber addr) = [vpn 2 addr] ++ [vpn 1 addr] :=
    path_pageNumber addr
  have absentLeaf (missing : walk (findTable m.mem) pgtbl
      (path (pageNumber addr)) = none) :
      ¬ LeafEntry (leaf m.mem pgtbl (pageNumber addr)) := by
    rw [leaf, missing]
    show ¬ LeafEntry 0
    decide
  cases toPmd : findTable m.mem pgtbl (vpn 2 addr) with
  | none =>
      have missing : walk (findTable m.mem) pgtbl (path (pageNumber addr)) =
          none := by
        rw [split, walk_append, walk, toPmd]
        rfl
      rw [if_neg (absentLeaf missing), pageWalk_absent toPmd]
  | some pmd =>
      have reached : walk (findTable m.mem) pgtbl [vpn 2 addr] = some pmd := by
        rw [walk, toPmd]
        rfl
      rw [inv.pageWalk_link [] (treePath_closed _ _ _ (split ▸ inside)) rfl
        toPmd]
      cases toTable : findTable m.mem pmd (vpn 1 addr) with
      | none =>
          have missing : walk (findTable m.mem) pgtbl
              (path (pageNumber addr)) = none := by
            rw [split, walk_snoc, reached]
            exact toTable
          rw [if_neg (absentLeaf missing), pageWalk_absent toTable]
      | some table =>
          have whole : walk (findTable m.mem) pgtbl
              (path (pageNumber addr)) = some table := by
            rw [split, walk_snoc, reached]
            exact toTable
          rw [inv.pageWalk_link _ (split ▸ inside) reached toTable, leaf_pageNumber whole]
          simp only [pageWalk, LeafEntry]
          by_cases hasV : has permV (word m.mem table (vpn 0 addr)) <;>
            by_cases hasR : has permR (word m.mem table (vpn 0 addr)) <;>
            by_cases hasW : has permW (word m.mem table (vpn 0 addr)) <;>
            by_cases hasX : has permX (word m.mem table (vpn 0 addr)) <;>
            simp [hasV, hasR, hasW, hasX]

/-! ## Hanging a table -/

/-- Hanging a clean table below an entry on the way to a page. -/
theorem hang (inv : TreeInv cfg pgtbl m) {multi : Set Nat} {zeroed : Bool}
    {above : List Nat} {table position fresh page : Nat}
    (hung : Hung cfg.top multi zeroed m table position fresh after)
    (onPath : above ++ [position] <+: path page)
    (reached : walk (findTable m.mem) pgtbl above = some table)
    (clean : ∀ position' < 512, has permV (word after.mem fresh position') →
      (above ++ [position]).length = 2 ∧
      ∃ page < 2 ^ 27, written page ∧ path page = above ++ [position] ∧
        index 0 page = position') :
    TreeInv cfg pgtbl after ∧
      walk (findTable after.mem) pgtbl (above ++ [position]) = some fresh ∧
      Extends pgtbl written (fun _ => False) m after := by
  have inside : treePath () (above ++ [position]) := by
    refine ⟨onPath.length_le, ?_⟩
    exact fun other member =>
      (treePath_path page).2 other (onPath.subset member)
  have prefixInside := treePath_closed () above position inside
  have tableLive := inv.tables.reached_live prefixInside reached
  have short : above.length < 2 := by
    have bound := inside.1
    rw [List.length_append, List.length_singleton] at bound
    omega
  have positionSmall := inv.tables.last_small inside
  have empty : ∀ next, treePath () (above ++ [position] ++ [next]) →
      ¬ has permV (word after.mem fresh next) := by
    intro next deeper valid
    have two := (clean next (inv.tables.last_small deeper) valid).1
    have bound := deeper.1
    rw [List.length_append, two, List.length_singleton] at bound
    omega
  have walks {other : List Nat} (otherInside : treePath () other) (last : Nat) :
      walk (findTable after.mem) pgtbl other = some last ↔
        walk (findTable m.mem) pgtbl other = some last ∨
          (other = above ++ [position] ∧ last = fresh) := by
    have added := inv.tables.walk_hung hung inside reached empty
      (otherInside : treePath () other) last
    simpa using added
  -- Tables that were there keep their words, but for the entry written.
  have words {key : List Nat} {other at' : Nat} (keyInside : treePath () key)
      (toOther : walk (findTable m.mem) pgtbl key = some other)
      (small : at' < 512) (elsewhere : ¬ (other = table ∧ at' = position)) :
      word after.mem other at' = word m.mem other at' := by
    have notFresh : other ≠ fresh := fun same => hung.isFresh
      (same ▸ inv.tables.reached_live keyInside toOther)
    by_cases atTable : other = table
    · subst atTable
      exact hung.word_table tableLive small fun same => elsewhere ⟨rfl, same⟩
    · exact (hung.sameFrame positionSmall atTable notFresh).word small
  have lastWord {other last : Nat}
      (toLast : walk (findTable m.mem) pgtbl (path other) = some last) :
      word after.mem last (index 0 other) = word m.mem last (index 0 other) := by
    refine words (treePath_path other) toLast (index_lt _ _) ?_
    rintro ⟨rfl, _⟩
    have same := (inv.tables.forest.unique () _ () _ last (treePath_path other)
      prefixInside toLast reached).2
    rw [← same] at short
    simp [path] at short
  refine ⟨⟨⟨⟨multi, hung.allocator⟩, inv.tables.hung_tables hung inside reached
    empty⟩, ?_⟩, (walks inside fresh).2 (Or.inr ⟨rfl, rfl⟩),
    fun key last keyInside toLast => (walks keyInside last).2 (Or.inl toLast),
    ?_, ?_⟩
  · intro key position' table' keyInside toTable valid
    have keyPrefix := treePath_closed _ _ _ keyInside
    have small := inv.tables.last_small keyInside
    rcases (walks keyPrefix table').1 toTable with old | ⟨rfl, rfl⟩
    · by_cases here : table' = table ∧ position' = position
      · obtain ⟨rfl, rfl⟩ := here
        rw [hung.word_here, entryPpn_entry
          (hung.allocator.lt_ppn hung.live_fresh) (by decide)]
      · rw [words keyPrefix old small here] at valid ⊢
        exact inv.links key position' table' keyInside old valid
    · exact absurd valid (empty position' keyInside)
  · rintro other _ _ ⟨last, toLast⟩
    rw [leaf_of_walk ((walks (treePath_path other) last).2 (Or.inl toLast)),
      leaf_of_walk toLast, lastWord toLast]
  · intro other small notWritten isMapped
    obtain ⟨last, toLast⟩ := isMapped.present
    rw [Mapped, leaf_of_walk toLast] at isMapped
    rcases (walks (treePath_path other) last).1 toLast with old | ⟨same, rfl⟩
    · rw [lastWord old] at isMapped
      rw [Mapped, leaf_of_walk old]
      exact isMapped
    · obtain ⟨-, source, sourceSmall, sourceWritten, paths, lasts⟩ :=
        clean (index 0 other) (index_lt 0 other) isMapped
      have equal : source = other :=
        eq_of_indices sourceSmall small (paths.trans same.symm) lasts
      exact absurd (equal ▸ sourceWritten) notWritten

/-! ## Writing an entry -/

/-- Writing the entry of a page into its last table. -/
theorem write (inv : TreeInv cfg pgtbl m) {value table page : Nat}
    (small : page < 2 ^ 27) (isWritten : written page)
    (reached : walk (findTable m.mem) pgtbl (path page) = some table)
    (buddy : after.buddy = m.buddy)
    (mem : after.mem = setWord m.mem table (index 0 page) value) :
    TreeInv cfg pgtbl after ∧ Present after.mem pgtbl page ∧
      (value < 2 ^ 64 → leaf after.mem pgtbl page = value) ∧
      Extends pgtbl written (fun other => other = page) m after := by
  obtain ⟨multi, allocator⟩ := inv.allocator
  have liveEq : ∀ frame, Live m frame → Live after frame := by
    intro frame live
    rwa [Live, buddy]
  have otherFrame : ∀ frame, frame ≠ table → SameFrame m.mem after.mem frame := by
    intro frame different
    rw [mem]
    exact sameFrame_setWord (index_lt 0 page) different
  have middle {key : List Nat} {position frame : Nat}
      (inside : treePath () (key ++ [position]))
      (toFrame : walk (findTable m.mem) pgtbl key = some frame) :
      frame ≠ table := by
    refine table_ne inv.tables (treePath_closed () key position inside)
      (treePath_path page) ?_ toFrame reached
    rintro rfl
    have bound := inside.1
    simp [path] at bound
  obtain ⟨tables, walks⟩ := inv.tables.congr
    (fun _ key position frame inside toFrame =>
      otherFrame frame (middle inside toFrame))
    fun frame _ live => liveEq frame live
  have walks (key : List Nat) (inside : treePath () key) :
      walk (findTable after.mem) pgtbl key = walk (findTable m.mem) pgtbl key :=
    walks () key inside
  have here (fits : value < 2 ^ 64) : leaf after.mem pgtbl page = value := by
    rw [leaf_of_walk ((walks _ (treePath_path page)).trans reached), mem]
    exact word_setWord _ _ _ fits
  have others : ∀ other < 2 ^ 27, other ≠ page →
      leaf after.mem pgtbl other = leaf m.mem pgtbl other := by
    intro other otherSmall different
    rw [leaf, leaf, walks _ (treePath_path other)]
    cases toLast : walk (findTable m.mem) pgtbl (path other) with
    | none => rfl
    | some last =>
        by_cases atTable : last = table
        · subst atTable
          have paths := (inv.tables.forest.unique () _ () _ last
            (treePath_path other) (treePath_path page) toLast reached).2
          have lasts : index 0 other ≠ index 0 page := fun same =>
            different (eq_of_indices otherSmall small paths same)
          show word after.mem last (index 0 other) = _
          rw [mem, word_setWord_of_ne lasts]
        · exact (otherFrame last atTable).word (index_lt 0 other)
  refine ⟨⟨⟨⟨multi, allocator.small, ?_, ?_⟩, tables⟩, ?_⟩,
    ⟨table, (walks _ (treePath_path page)).trans reached⟩, here, ?_, ?_, ?_⟩
  · rw [buddy]
    exact allocator.pages
  · rw [buddy]
    exact allocator.zero_live
  · intro key position table' inside toTable valid
    rw [walks _ (treePath_closed _ _ _ inside)] at toTable
    have same := (otherFrame table' (middle inside toTable)).word
      (inv.tables.last_small inside)
    rw [same] at valid ⊢
    exact inv.links key position table' inside toTable valid
  · intro key last inside toLast
    rw [walks _ inside]
    exact toLast
  · exact fun other otherSmall different _ => others other otherSmall different
  · intro other otherSmall notWritten isMapped
    have different : other ≠ page := fun same => notWritten (same ▸ isWritten)
    rwa [Mapped, others other otherSmall different] at isMapped

/-! ## The body and the loop -/

/-- A level of the body, when its table is filled with zeros or comes clean. -/
theorem next (inv : TreeInv cfg pgtbl m) (above : List Nat)
    (table position : Nat) {page : Nat}
    (onPath : above ++ [position] <+: path page)
    (reached : walk (findTable m.mem) pgtbl above = some table)
    (clean : cfg.fill ≠ .asFound ∨
      (word m.mem table position &&& permV = 0 →
        CleanPage cfg m fun position' =>
          (above ++ [position]).length = 2 ∧
          ∃ page < 2 ^ 27, written page ∧ path page = above ++ [position] ∧
            index 0 page = position'))
    (succeeds : (nextTable cfg m table position).2.oom = false) :
    TreeInv cfg pgtbl (nextTable cfg m table position).2 ∧
      walk (findTable (nextTable cfg m table position).2.mem) pgtbl
        (above ++ [position]) = some (nextTable cfg m table position).1 ∧
      (nextTable cfg m table position).1 ≠ nullFrame ∧
      Extends pgtbl written (fun _ => False) m
        (nextTable cfg m table position).2 := by
  have inside : treePath () (above ++ [position]) :=
    ⟨onPath.length_le, fun other member =>
      (treePath_path page).2 other (onPath.subset member)⟩
  have tableLive := inv.tables.reached_live
    (treePath_closed () above position inside) reached
  have positionSmall := inv.tables.last_small inside
  obtain ⟨multi, allocator⟩ := inv.allocator
  rcases nextTable_cases allocator succeeds with ⟨next, found, result⟩ | hung
  · have toNext := walk_snoc_eq_some.2 ⟨table, reached, found⟩
    rw [result]
    refine ⟨inv, toNext, ?_, Extends.refl _ _ _ _⟩
    exact (allocator.lt_nullFrame (inv.tables.reached_live inside toNext)).ne
  · have absent : word m.mem table position &&& permV = 0 := by
      simpa [has] using hung.absent
    have notTable : (nextTable cfg m table position).1 ≠ table := fun same =>
      hung.isFresh (by rwa [same])
    obtain ⟨kept, toFresh, extension⟩ := inv.hang hung onPath reached (by
      intro position' small' valid
      rcases clean with zeroing | clean
      · rw [hung.word_fresh tableLive positionSmall (decide_eq_true zeroing)
          small'] at valid
        simp [has] at valid
      · rw [word_nextTable_fresh absent positionSmall small' notTable] at valid
        exact clean absent position' small' valid)
    exact ⟨kept, toFresh, (hung.allocator.lt_nullFrame hung.live_fresh).ne,
      extension⟩

/-- The body of the loop. -/
theorem mapPage (inv : TreeInv cfg pgtbl m) {va pa perm : Nat}
    (isWritten : written (pageNumber va))
    (clean : cfg.fill ≠ .asFound ∨ CleanStep cfg m pgtbl va written)
    (succeeds : (mapPage cfg m pgtbl va pa perm).2.oom = false) :
    (Vm.mapPage cfg m pgtbl va pa perm).1 = false ∧
      TreeInv cfg pgtbl (Vm.mapPage cfg m pgtbl va pa perm).2 ∧
      Present (Vm.mapPage cfg m pgtbl va pa perm).2.mem pgtbl (pageNumber va) ∧
      (perm < 2 ^ 64 →
        leaf (Vm.mapPage cfg m pgtbl va pa perm).2.mem pgtbl (pageNumber va) =
          entry ((pa >>> 12) &&& ppnMask) perm) ∧
      Extends pgtbl written (fun other => other = pageNumber va) m
        (Vm.mapPage cfg m pgtbl va pa perm).2 := by
  obtain ⟨firstSucceeds, secondSucceeds⟩ := mapPage_succeeds succeeds
  have whole : path (pageNumber va) = [vpn 2 va] ++ [vpn 1 va] :=
    path_pageNumber va
  have half : [] ++ [vpn 2 va] <+: path (pageNumber va) := by
    rw [whole]
    exact List.prefix_append _ _
  have complete : [vpn 2 va] ++ [vpn 1 va] <+: path (pageNumber va) :=
    whole ▸ List.prefix_rfl
  have ppnSmall : (pa >>> 12) &&& ppnMask < 2 ^ 44 := by
    have mask : ppnMask = 2 ^ 44 - 1 := by decide
    rw [mask, Nat.and_two_pow_sub_one_eq_mod]
    exact Nat.mod_lt _ (Nat.two_pow_pos _)
  obtain ⟨middleInv, toPmd, pmdFound, toMiddle⟩ := inv.next [] pgtbl
    (vpn 2 va) half rfl
    (clean.imp_right fun clean absent position small valid =>
      (clean.1 absent position small valid).elim) firstSucceeds
  have secondClean := clean.imp_right And.right
  have secondSucceeds := secondSucceeds pmdFound
  rcases first : nextTable cfg m pgtbl (vpn 2 va) with ⟨pmd, middle⟩
  rw [first] at middleInv toPmd pmdFound toMiddle secondClean secondSucceeds
  obtain ⟨lastInv, toPte, pteFound, toLast⟩ := middleInv.next [vpn 2 va] pmd
    (vpn 1 va) complete toPmd
    (secondClean.imp_right fun clean absent position small valid => by
      obtain ⟨page, pageSmall, pageWritten, paths, lasts⟩ :=
        clean absent position small valid
      exact ⟨rfl, page, pageSmall, pageWritten, paths.trans whole, lasts⟩)
    secondSucceeds
  rcases second : nextTable cfg middle pmd (vpn 1 va) with ⟨pte, last⟩
  rw [second] at lastInv toPte pteFound toLast
  rw [← whole] at toPte
  rw [mapPage_eq pa perm first second pmdFound pteFound,
    vpn_eq_index_pageNumber (by decide)]
  obtain ⟨kept, present, here, third⟩ := @write cfg pgtbl last
    { last with
      mem := setWord last.mem pte (index 0 (pageNumber va))
        (entry ((pa >>> 12) &&& ppnMask) perm) }
    written lastInv _ pte _ (pageNumber_lt va) isWritten toPte rfl rfl
  refine ⟨rfl, kept, present,
    fun permSmall => here (entry_lt ppnSmall permSmall),
    ((toMiddle.trans toLast).trans third).mono ?_⟩
  rintro page ((no | no) | same)
  · exact no.elim
  · exact no.elim
  · exact same

/-- The pages that iterations from `offset` on visit. -/
def Visited (va offset count page : Nat) : Prop :=
  ∃ k < count, page = pageNumber (va + (offset + k * 4096))

/-- The loop: every page visited has the entry of its last visit. -/
theorem mapPages (inv : TreeInv cfg pgtbl m) {va pa perm count offset : Nat}
    (isWritten : ∀ page, Visited va offset count page → written page)
    (clean : cfg.fill ≠ .asFound ∨
      CleanPages cfg pgtbl va pa perm written count offset m)
    (succeeds : (mapPages cfg pgtbl va pa perm count offset m).2.oom = false) :
    TreeInv cfg pgtbl (Vm.mapPages cfg pgtbl va pa perm count offset m).2 ∧
      (∀ k < count,
        (∀ j < count, k < j → pageNumber (va + (offset + j * 4096)) ≠
          pageNumber (va + (offset + k * 4096))) →
        Present (Vm.mapPages cfg pgtbl va pa perm count offset m).2.mem pgtbl
          (pageNumber (va + (offset + k * 4096))) ∧
        (perm < 2 ^ 64 →
          leaf (Vm.mapPages cfg pgtbl va pa perm count offset m).2.mem pgtbl
            (pageNumber (va + (offset + k * 4096))) =
              entry ((((pa + (offset + k * 4096)) % 2 ^ 64) >>> 12) &&&
                ppnMask) perm)) ∧
      Extends pgtbl written (Visited va offset count) m
        (Vm.mapPages cfg pgtbl va pa perm count offset m).2 := by
  induction count generalizing offset m with
  | zero =>
      exact ⟨inv, fun k below => absurd below (Nat.not_lt_zero k),
        Extends.refl _ _ _ _⟩
  | succ count induction =>
      have firstPage : pageNumber ((va + offset) % 2 ^ 64) =
          pageNumber (va + (offset + 0 * 4096)) := by
        rw [pageNumber_mod, Nat.zero_mul, Nat.add_zero]
      have shift (k : Nat) : offset + (k + 1) * 4096 =
          offset + 4096 + k * 4096 := by
        omega
      obtain ⟨goesOn, kept, present, here, first⟩ := inv.mapPage
        (isWritten _ ⟨0, Nat.succ_pos _, firstPage⟩)
        (clean.imp_right And.left) (mapPages_first succeeds)
      rw [Vm.mapPages] at succeeds ⊢
      dsimp only at succeeds ⊢
      rw [goesOn] at succeeds ⊢
      obtain ⟨lastInv, later, rest⟩ := induction kept
        (fun page visited => by
          obtain ⟨k, below, rfl⟩ := visited
          exact isWritten _ ⟨k + 1, by omega, by rw [shift]⟩)
        (clean.imp_right And.right) succeeds
      refine ⟨lastInv, ?_, (first.trans rest).mono ?_⟩
      · intro k below isLast
        cases k with
        | zero =>
            -- The first page keeps its entry: it is not visited again.
            have away : ¬ Visited va (offset + 4096) count
                (pageNumber ((va + offset) % 2 ^ 64)) := by
              rintro ⟨j, inside, same⟩
              rw [firstPage, ← shift] at same
              exact isLast (j + 1) (by omega) (Nat.succ_pos j) same.symm
            rw [← firstPage]
            simp only [Nat.zero_mul, Nat.add_zero]
            refine ⟨rest.present present, fun permSmall => ?_⟩
            exact (rest.kept _ (pageNumber_lt _) away present).trans
              (here permSmall)
        | succ k =>
            have result := later k (by omega) fun j inside above => by
              have apart := isLast (j + 1) (by omega) (by omega)
              rwa [shift, shift] at apart
            rw [shift]
            exact result
      · rintro page (rfl | ⟨k, below, rfl⟩)
        · exact ⟨0, Nat.succ_pos _, firstPage⟩
        · exact ⟨k + 1, by omega, by rw [shift]⟩

end TreeInv

end TinyRiscvOs.Vm
