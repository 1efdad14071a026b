import TinyRiscvOs.Lib.PrivateMemory
import TinyRiscvOs.Vm.StaleBytes

/-!
# Every task has a memory of its own

The tasks load, store, fault and fork in any order and share the frames they
have not written since a fork.  To each of them this looks as if it had a
memory of its own: a store reaches no other task, a fork copies the memory of
the parent at once, and the fault that copies a page is not noticed at all.
-/

namespace TinyRiscvOs.Vm

open TinyRiscvOs.Lib
open TinyRiscvOs.Mm

/-! ## What the tasks see -/

/-- The byte a task has at an address of a mapped page. -/
def view (mem : Bytes) (task : List Task) : Memories Nat Nat Byte :=
  fun id va =>
    (holds mem task (id, va / 4096)).map fun frame =>
      mem (4096 * frame + va % 4096)

section

variable {mem other : Bytes} {task task' : List Task} {id id' va : Nat}

theorem view_of_holds {frame : Nat}
    (held : holds mem task (id, va / 4096) = some frame) :
    view mem task id va = some (mem (4096 * frame + va % 4096)) := by
  rw [view, held]
  rfl

theorem view_eq_none :
    view mem task id va = none ↔ holds mem task (id, va / 4096) = none :=
  Option.map_eq_none_iff

/-- The same frame with the same bytes is the same view. -/
theorem view_congr
    (sameHolds : holds other task' (id', va / 4096) =
      holds mem task (id, va / 4096))
    (sameBytes : ∀ frame, holds mem task (id, va / 4096) = some frame →
      SameFrame mem other frame) :
    view other task' id' va = view mem task id va := by
  cases held : holds mem task (id, va / 4096) with
  | none => rw [view_eq_none.2 held, view_eq_none.2 (sameHolds.trans held)]
  | some frame =>
      rw [view_of_holds held, view_of_holds (sameHolds.trans held),
        sameBytes frame held _ (Nat.mod_lt _ (by decide))]

end

/-! ## Accesses, faults and forks -/

/-- What tasks do, with the byte that is loaded or fetched. -/
inductive AccessEvent where
  | load (id : Nat) (access : Access) (va : Nat) (value : Byte)
  | store (id va : Nat) (value : Byte)
  | pageFault (id : Nat) (access : Access) (badAddr : Nat)
  | fork (id : Nat)

/-- Accesses that are translated, the faults of those that are not, and forks. -/
inductive AccessStep (cfg : Config) : System → AccessEvent → System → Prop where
  | load {s : System} {id va pa : Nat} {access : Access} {t : Task}
      (taskAt : s.task[id]? = some t) (notStore : access ≠ .store)
      (user : va < 2 ^ 38)
      (translates : translate s.machine.mem t.pgd .user access va = some pa) :
      AccessStep cfg s (.load id access va (s.machine.mem pa)) s
  | store {s : System} {id va pa : Nat} {value : Byte} {t : Task}
      (taskAt : s.task[id]? = some t) (user : va < 2 ^ 38)
      (translates : translate s.machine.mem t.pgd .user .store va = some pa) :
      AccessStep cfg s (.store id va value) (s.store pa value)
  | pageFault {s next : System} {id badAddr : Nat} {access : Access} {t : Task}
      (taskAt : s.task[id]? = some t)
      (raised : translate s.machine.mem t.pgd .user access badAddr = none)
      (step : SystemStep cfg s (.pageFault id access badAddr) next) :
      AccessStep cfg s (.pageFault id access badAddr) next
  | fork {s next : System} {id : Nat}
      (step : SystemStep cfg s (.fork id) next) :
      AccessStep cfg s (.fork id) next

/-- New tables are empty, and a task that forks has the tables of its areas. -/
def ForksReady (cfg : Config) (s : System) (event : AccessEvent) : Prop :=
  Blank cfg s.machine ∧
    match event with
    | .fork id => ∀ t, s.task[id]? = some t → t.HasTables s.machine.mem
    | _ => True

/-- What a fault without copy-on-write puts at the addresses of its page. -/
def pageIn (cfg : Config) (m : Machine) (vma : Vma) (badAddr : Nat) :
    Nat → Option Byte := fun va =>
  if va / 4096 = badAddr / 4096 then
    some (Inv.demandFill cfg m vma badAddr
      (4096 * (cfg.allocPage m).1 + va % 4096))
  else none

/-- What the event is to the memories of the tasks. -/
def observe (cfg : Config) (s : System) :
    AccessEvent → MemoryEvent Nat Nat Byte
  | .load id _ va value => .load id va value
  | .store id va value => .store id va value
  | .pageFault id access badAddr =>
      match s.task[id]? with
      | none => .silent
      | some t =>
          match cowEntry s.machine.mem t access badAddr,
            findVma t.mmap badAddr with
          | none, some vma => .fill id (pageIn cfg s.machine vma badAddr)
          | _, _ => .silent
  | .fork id => .fork id s.task.length

theorem observe_demand {cfg : Config} {s : System} {id badAddr : Nat}
    {access : Access} {t : Task} {vma : Vma} (taskAt : s.task[id]? = some t)
    (found : findVma t.mmap badAddr = some vma)
    (cow : cowEntry s.machine.mem t access badAddr = none) :
    observe cfg s (.pageFault id access badAddr) =
      .fill id (pageIn cfg s.machine vma badAddr) := by
  simp only [observe, taskAt, found, cow]

theorem observe_copied {cfg : Config} {s : System} {id badAddr : Nat}
    {access : Access} {t : Task} {slot : Nat × Nat}
    (taskAt : s.task[id]? = some t)
    (cow : cowEntry s.machine.mem t access badAddr = some slot) :
    observe cfg s (.pageFault id access badAddr) = .silent := by
  simp only [observe, taskAt, cow]

/-- The steps of the tasks that meet a condition, as the memories see them. -/
abbrev Accesses (cfg : Config) (guard : System → AccessEvent → Prop) :
    System → MemoryEvent Nat Nat Byte → System → Prop :=
  Observed (Guarded (AccessStep cfg) guard) (observe cfg)

/-! ## Loads and stores -/

namespace Inv

variable {cfg : Config} {task : List Task} {kernel : Finset Nat} {budget : Nat}
    {m after : Machine} {id va pa : Nat} {access : Access} {t : Task}

/-- What is loaded is what the task has there. -/
theorem view_translate (inv : Inv cfg task kernel budget m)
    (taskAt : task[id]? = some t) (user : va < 2 ^ 38)
    (translates : translate m.mem t.pgd .user access va = some pa) :
    view m.mem task id va = some (m.mem pa) := by
  obtain ⟨held, offset, _⟩ := inv.translate_some taskAt user translates
  have split : 4096 * (pa / 4096) + va % 4096 = pa := by omega
  rw [view_of_holds held, split]

/-- A store changes one byte of the task, since nobody else holds the frame. -/
theorem view_store (inv : Inv cfg task kernel budget m)
    (taskAt : task[id]? = some t) (user : va < 2 ^ 38)
    (translates : translate m.mem t.pgd .user .store va = some pa)
    (value : Byte) :
    view (Function.update m.mem pa value) task =
      (view m.mem task).after (.store id va value) := by
  obtain ⟨held, offset, isLeaf, allowed⟩ :=
    inv.translate_some taskAt user translates
  obtain ⟨_, ptes, _⟩ := inv.storeByte value held
  have frames := fun slot => holds_congr (ptes slot)
  funext other place
  by_cases here : id = other ∧ va = place
  · obtain ⟨rfl, rfl⟩ := here
    have split : 4096 * (pa / 4096) + va % 4096 = pa := by omega
    rw [Memories.after_store_self, view_of_holds ((frames _).trans held), split,
      Function.update_self]
  · rw [Memories.after_store_of_not _ here]
    cases placeHeld : holds m.mem task (other, place / 4096) with
    | none =>
        rw [view_eq_none.2 placeHeld,
          view_eq_none.2 ((frames _).trans placeHeld)]
    | some frame =>
        have apart : 4096 * frame + place % 4096 ≠ pa := by
          intro equal
          have sameFrame : frame = pa / 4096 := by omega
          have slots := inv.sharing.exclusive _ _ _ (allows_store allowed) held
            (sameFrame ▸ placeHeld)
          simp only [Prod.mk.injEq] at slots
          exact here ⟨slots.1.symm, by omega⟩
        rw [view_of_holds placeHeld,
          view_of_holds ((frames _).trans placeHeld),
          Function.update_of_ne apart]

end Inv

/-! ## Faults -/

theorem allocPage_same (zeroed : Bool) (m : Machine) {frame : Nat}
    (different : frame ≠ (allocPage zeroed m).1) :
    SameFrame m.mem (allocPage zeroed m).2.mem frame := by
  rw [allocPage] at different ⊢
  dsimp only at different ⊢
  split at different
  · rename_i failed
    rw [if_pos failed]
    exact SameFrame.refl _ _
  · rename_i taken
    rw [if_neg taken]
    dsimp only at different ⊢
    split
    · intro offset inside
      exact Bytes.fill_outside (by omega)
    · exact SameFrame.refl _ _

namespace Inv

variable {cfg : Config} {task : List Task} {kernel : Finset Nat} {budget : Nat}
    {m after : Machine} {id badAddr : Nat} {access : Access} {t : Task}

/-- A fault changes what the task has on the page and nothing else. -/
theorem view_faulted (inv : Inv cfg task kernel budget m) {slot : Slot}
    {frame perm : Nat} {released : Option Nat} {filled : Bytes}
    (faulted : Faulted cfg task m slot frame perm released filled after)
    (holdsNew : holds after.mem task slot = some frame) (other va : Nat) :
    view after.mem task other va =
      if (other, va / 4096) = slot then
        some (filled (4096 * frame + va % 4096))
      else view m.mem task other va := by
  split
  · rename_i here
    rw [view_of_holds (here ▸ holdsNew),
      faulted.filled _ (Nat.mod_lt _ (by decide))]
  · rename_i elsewhere
    refine view_congr (holds_congr ?_) fun held isHeld => ?_
    · rw [faulted.pte, if_neg elsewhere]
    · obtain ⟨live, _, notTable⟩ := inv.users _ _ isHeld
      exact faulted.same held live notTable

theorem view_pageFault (inv : Inv cfg task kernel budget m)
    (blank : Blank cfg m) (taskAt : task[id]? = some t)
    (returns : Vm.doPageFault cfg m t access badAddr = .ok after)
    (succeeds : after.oom = false) :
    view after.mem task =
      (view m.mem task).after (observe cfg ⟨m, task⟩
        (.pageFault id access badAddr)) := by
  obtain ⟨vma, found, allowed, afterInv, faulted⟩ :=
    inv.doPageFault blank taskAt returns succeeds
  have member := List.mem_of_getElem? taskAt
  obtain ⟨_, area, _, small, user⟩ := inv.fault_page member found
  cases cow : cowEntry m.mem t access badAddr with
  | none =>
      rw [@observe_demand cfg ⟨m, task⟩ _ _ _ _ _ taskAt found cow]
      rw [cow] at faulted
      have holdsNew := faulted.holds_new afterInv area.flags
      funext other va
      rw [inv.view_faulted faulted holdsNew]
      by_cases sameTask : other = id
      · subst sameTask
        rw [Memories.after_fill_self, pageIn]
        by_cases samePage : va / 4096 = badAddr / 4096
        · rw [if_pos samePage, if_pos (by rw [samePage]), Option.some_or]
        · rw [if_neg samePage, Option.none_or,
            if_neg fun same => samePage (congrArg Prod.snd same)]
      · rw [Memories.after_fill_of_ne _ sameTask,
          if_neg fun same => sameTask (congrArg Prod.fst same)]
  | some slot =>
      rw [@observe_copied cfg ⟨m, task⟩ _ _ _ _ _ taskAt cow]
      obtain ⟨table, position⟩ := slot
      rw [cow] at faulted
      have holdsNew := faulted.holds_new afterInv area.flags
      funext other va
      rw [inv.view_faulted faulted holdsNew]
      split
      · rename_i here
        obtain ⟨rfl, samePage⟩ := Prod.mk.inj here
        have held := faulted.held _ rfl
        have live := (inv.users _ _ held).1
        have different : entryPpn (word m.mem table position) ≠
            (cfg.allocPage m).1 := fun same => faulted.isFresh (same ▸ live)
        have unread := allocPage_same _ m different (va % 4096)
          (Nat.mod_lt _ (by decide))
        rw [copyFrame_apply (Nat.mod_lt _ (by decide))]
        exact (congrArg some unread).trans
          (view_of_holds (samePage ▸ held)).symm
      · rfl

end Inv

/-! ## Forks -/

namespace ForkRun

variable {cfg : Config} {task : List Task} {parent child : Nat} {t : Task}
    {m after : Machine} {visits : List (Option Nat)}

/-- The parent keeps its frames. -/
theorem holds_own (run : ForkRun cfg task parent child t m visits after)
    (different : parent ≠ child) (parentAt : task[parent]? = some t)
    (page : Nat) :
    holds after.mem task (parent, page) = holds m.mem task (parent, page) := by
  have own := (ForkRun.kept run different parentAt).own page
  refine Option.ext fun frame => ?_
  rw [holds_eq_some, holds_eq_some]
  rcases own with same | cleared
  · rw [same]
  · rw [cleared, has_readOnly, entryPpn_readOnly]

/-- The child holds the frames of its parent on the pages that were visited. -/
theorem holds_child (run : ForkRun cfg task parent child t m visits after)
    (different : parent ≠ child) (parentAt : task[parent]? = some t)
    (empty : ∀ page, holds m.mem task (child, page) = none) (page : Nat) :
    holds after.mem task (child, page) =
      if page ∈ visits.reduceOption then holds m.mem task (parent, page)
      else none := by
  induction run with
  | nil => exact empty page
  | @snoc visits middle visit next run step induction =>
      have own := holds_own run different parentAt page
      cases step with
      | claimed inv prepared =>
          rw [holds_congr (prepared.pte _), induction]
          simp [List.reduceOption]
      | @visited _ here _ _ inv user round _ =>
          have visited : page ∈ (visits ++ [some here]).reduceOption ↔
              page ∈ visits.reduceOption ∨ page = here := by
            simp [List.reduceOption]
          simp only [visited]
          rw [Round] at round
          by_cases valid : has permV (leaf middle.mem t.pgd here)
          · rw [if_pos valid] at round
            have shared := round
            by_cases same : page = here
            · subst same
              have parentHolds : holds middle.mem task (parent, page) =
                  some (entryPpn (leaf middle.mem t.pgd page)) :=
                holds_eq_some.2 (by
                  rw [pte_task parentAt user]
                  exact ⟨valid, rfl⟩)
              rw [if_pos (Or.inr rfl), ← own, parentHolds, holds_eq_some,
                shared.pte, if_pos (Or.inl rfl), has_readOnly,
                entryPpn_readOnly]
              exact ⟨valid, rfl⟩
            · have elsewhere : pte next.mem task (child, page) =
                  pte middle.mem task (child, page) := by
                rw [shared.pte, if_neg]
                simp [same]
              rw [holds_congr elsewhere, induction]
              simp only [same, or_false]
          · rw [if_neg valid] at round
            rw [round, induction]
            by_cases same : page = here
            · subst same
              have absent : holds m.mem task (parent, page) = none := by
                rw [← own, holds, pte_task parentAt user, if_neg valid]
              simp only [absent, ite_self]
            · simp only [same, or_false]

end ForkRun

namespace Inv

variable {cfg : Config} {task : List Task} {kernel : Finset Nat}
    {m after : Machine} {id : Nat} {t child : Task}

/-- The loops of `do_fork` visit every page that the parent has mapped. -/
theorem visited (inv : Inv cfg task kernel (2 ^ 26 * kernel.card) m)
    (taskAt : task[id]? = some t) {page frame : Nat}
    (held : holds m.mem task (id, page) = some frame) :
    page ∈ (forkVisits t.mmap).reduceOption := by
  have valid := (holds_eq_some.1 held).1
  have user : page < 2 ^ 26 := by
    by_contra large
    rw [pte_eq_zero fun both => large (both.choose_spec.2)] at valid
    exact not_has_zero permV valid
  rw [pte_task taskAt user] at valid
  obtain ⟨vma, isArea, ⟨addr, ⟨lower, upper⟩, rfl⟩, _⟩ :=
    inv.granted id t page taskAt user valid
  rw [forkVisits_pages]
  refine List.mem_flatMap.2 ⟨vma, isArea, List.mem_range'_1.2 ?_⟩
  rw [Vma.pageCount]
  omega

/-- A fork gives the child what its parent has, and takes nothing from anyone. -/
theorem view_fork (inv : Inv cfg task kernel (2 ^ 26 * kernel.card) m)
    (blank : Blank cfg m) (source : cfg.absentNull = false)
    (taskAt : task[id]? = some t) (present : t.HasTables m.mem)
    (returns : Vm.doFork cfg .copyOnWrite m t = .ok (child, after))
    (succeeds : after.oom = false) :
    view after.mem (task ++ [child]) =
      (view m.mem task).after (.fork id task.length) := by
  have users := inv.areas t (List.mem_of_getElem? taskAt)
  obtain ⟨rfl, pgd, _⟩ := forkScan_of_doFork users returns
  obtain ⟨_, _, _, _, _, rooted, run⟩ :=
    (inv.forkScan blank source taskAt succeeds).2 present
  have known := lt_length taskAt
  have different := Nat.ne_of_lt known
  have parentAt : (task ++ [forkChild cfg m t])[id]? = some t := by
    rw [List.getElem?_append_left known]
    exact taskAt
  have roots : SameRoots (task ++ [forkChild cfg m t]) (task ++ [child]) := by
    simp only [SameRoots, List.map_append, List.map_cons, pgd]
  have lastHolds (slot : Slot) :
      holds (Vm.forkScan cfg m t).machine.mem (task ++ [child]) slot =
        holds (Vm.forkScan cfg m t).machine.mem
          (task ++ [forkChild cfg m t]) slot := by
    rw [holds, holds, roots.pte]
  have rootHolds (slot : Slot) :
      holds (Vm.forkRoot cfg m).2.mem (task ++ [forkChild cfg m t]) slot =
        holds m.mem task slot := by
    rw [holds, holds, rooted.pte]
  have rootOk : (Vm.forkRoot cfg m).2.oom = false := by
    rw [forkScan_eq] at succeeds
    exact succeeds_of_mono scanVmas_oom_mono succeeds
  obtain ⟨⟨_, _, rootInv⟩, _⟩ := inv.forkRoot taskAt rootOk
  have bytes (slot : Slot) (frame : Nat)
      (held : holds m.mem task slot = some frame) :
      SameFrame m.mem (Vm.forkScan cfg m t).machine.mem frame := by
    obtain ⟨live, _, _⟩ := inv.users slot frame held
    obtain ⟨rootLive, _, notTable⟩ :=
      rootInv.users slot frame ((rootHolds slot).trans held)
    exact (inv.forkRoot_same taskAt rootOk live).trans
      (run.keeps rootLive notTable)
  have noChild (page : Nat) : holds (Vm.forkRoot cfg m).2.mem
      (task ++ [forkChild cfg m t]) (task.length, page) = none := by
    rw [rootHolds, holds, pte_eq_zero (by simp), if_neg (not_has_zero permV)]
  funext other va
  by_cases isChild : other = task.length
  · subst isChild
    rw [Memories.after_fork_child]
    refine view_congr ?_ (bytes _)
    rw [lastHolds, run.holds_child different parentAt noChild, rootHolds]
    cases held : holds m.mem task (id, va / 4096) with
    | none => exact ite_self none
    | some frame => exact if_pos (inv.visited taskAt held)
  · rw [Memories.after_fork_of_ne _ isChild]
    refine view_congr ?_ (bytes _)
    rw [lastHolds, ← rootHolds]
    by_cases isParent : other = id
    · subst isParent
      exact run.holds_own different parentAt _
    · exact holds_congr ((ForkRun.kept run different parentAt).others _
        isParent isChild)

end Inv

/-! ## One step -/

/-- The memories of the tasks. -/
def System.view (s : System) : Memories Nat Nat Byte :=
  Vm.view s.machine.mem s.task

section

variable {cfg : Config} {s next : System} {event : AccessEvent}

/-- A step of the tasks is one of those that leave the kernel's pages alone. -/
theorem AccessStep.taskStep
    (taken : Guarded (AccessStep cfg) (ForksReady cfg) s event next) :
    next = s ∨ ∃ taskEvent,
      Guarded (TaskStep cfg) (ForksHaveTables cfg) s taskEvent next := by
  obtain ⟨step, blank, there⟩ := taken
  cases step with
  | load => exact Or.inl rfl
  | store taskAt user translates =>
      exact Or.inr ⟨_, .store taskAt user translates, blank, trivial⟩
  | pageFault taskAt raised step =>
      exact Or.inr ⟨_, .pageFault taskAt raised step, blank, trivial⟩
  | fork step => exact Or.inr ⟨_, .fork step, blank, there⟩

theorem ImageInv.accessed (source : cfg.absentNull = false)
    (inv : ImageInv cfg s)
    (taken : Guarded (AccessStep cfg) (ForksReady cfg) s event next) :
    ImageInv cfg next ∧ ∀ address, cfg.InRamdisk address →
      next.machine.mem address = s.machine.mem address := by
  rcases AccessStep.taskStep taken with rfl | ⟨_, taken⟩
  · exact ⟨inv, fun _ _ => rfl⟩
  · have after := TaskInv.run source inv (Run.single taken)
    exact ⟨after.spaces, after.ramdisk⟩

/-- Only a fork changes the tasks, and gives the child the areas of its parent. -/
theorem AccessStep.tasks
    (taken : Guarded (AccessStep cfg) (ForksReady cfg) s event next)
    (inv : ImageInv cfg s) :
    (∃ parent t child, event = .fork parent ∧ s.task[parent]? = some t ∧
        next.task = s.task ++ [child] ∧ child.mmap = t.mmap.reverse) ∨
      (∀ parent, event ≠ .fork parent) ∧ next.task = s.task := by
  obtain ⟨_, _, spaces⟩ := inv
  obtain ⟨step, _, there⟩ := taken
  cases step with
  | load => exact Or.inr ⟨nofun, rfl⟩
  | store => exact Or.inr ⟨nofun, rfl⟩
  | pageFault _ _ step =>
      cases step with
      | pageFault => exact Or.inr ⟨nofun, rfl⟩
  | fork step =>
      cases step with
      | fork taskAt returns succeeds =>
          have words := fun vma isArea =>
            (spaces.areas _ (List.mem_of_getElem? taskAt) vma isArea).words
          exact Or.inl ⟨_, _, _, rfl, taskAt, rfl, doFork_mmap words returns⟩

theorem observe_ne_fork (notFork : ∀ parent, event ≠ .fork parent)
    {parent child : Nat} : observe cfg s event ≠ .fork parent child := by
  cases event with
  | load | store => nofun
  | pageFault id access badAddr =>
      rw [observe]
      split
      · nofun
      · split <;> nofun
  | fork id => exact absurd rfl (notFork id)

theorem observe_pageFault_allows (cfg : Config) (s : System)
    (memories : Memories Nat Nat Byte) (id : Nat) (access : Access)
    (badAddr : Nat) :
    memories.Allows (observe cfg s (.pageFault id access badAddr)) := by
  rw [observe]
  split
  · trivial
  · split <;> trivial

/-- A fault is no store. -/
theorem observe_pageFault_stores (cfg : Config) (s : System) (id : Nat)
    (access : Access) (badAddr : Nat) {other addr : Nat} :
    ¬ Memories.StoresTo other addr
      (observe cfg s (.pageFault id access badAddr)) := by
  rw [observe]
  split
  · exact fun stores => stores
  · split <;> exact fun stores => stores

/-- Every step of the tasks is one of their memories. -/
theorem ImageInv.view_step (source : cfg.absentNull = false)
    (inv : ImageInv cfg s)
    (taken : Guarded (AccessStep cfg) (ForksReady cfg) s event next) :
    Memories.Step s.view (observe cfg s event) next.view := by
  obtain ⟨kernel, _, spaces⟩ := inv
  obtain ⟨step, blank, there⟩ := taken
  cases step with
  | load taskAt notStore user translates =>
      exact ⟨spaces.view_translate taskAt user translates, rfl⟩
  | store taskAt user translates =>
      refine ⟨?_, spaces.view_store taskAt user translates _⟩
      have here := spaces.view_translate taskAt user translates
      exact fun empty => Option.some_ne_none _ (here.symm.trans empty)
  | pageFault taskAt raised step =>
      refine ⟨observe_pageFault_allows cfg s _ _ _ _, ?_⟩
      cases step with
      | pageFault taskAt returns succeeds =>
          exact spaces.view_pageFault blank taskAt returns succeeds
  | fork step =>
      cases step with
      | fork taskAt returns succeeds =>
          refine ⟨?_, spaces.view_fork blank source taskAt (there _ taskAt)
            returns succeeds⟩
          funext va
          refine view_eq_none.2 ?_
          rw [holds, pte_eq_zero (by simp), if_neg (not_has_zero permV)]

end

/-! ## Runs -/

/-- After the boot no task has anything. -/
theorem boot_view {cfg : Config} {mem : Bytes} {maps : List KernelMap}
    {programs : List (List MmapArgs)} {start : System}
    (blank : Blank cfg (Boot.machine cfg mem))
    (bootable : Bootable cfg maps programs)
    (booted : boot cfg mem maps programs = .ok start)
    (succeeds : start.machine.oom = false) :
    start.view = fun _ _ => none := by
  funext id va
  refine view_eq_none.2 ?_
  rw [holds, boot_pte blank bootable booted succeeds,
    if_neg (not_has_zero permV)]

/-- A run of the tasks is one of their memories, and keeps the invariant. -/
theorem ImageInv.view_run {cfg : Config} (source : cfg.absentNull = false)
    {start s : System} {events : List (MemoryEvent Nat Nat Byte)}
    (inv : ImageInv cfg start)
    (run : Run (Accesses cfg (ForksReady cfg)) start events s) :
    ImageInv cfg s ∧ Run Memories.Step start.view events s.view := by
  have kept (s next : System) (label : MemoryEvent Nat Nat Byte)
      (inv : ImageInv cfg s)
      (taken : Accesses cfg (ForksReady cfg) s label next) :
      ImageInv cfg next := by
    obtain ⟨event, taken, _⟩ := taken
    exact (inv.accessed source taken).1
  refine ⟨run.invariant inv fun s label next => kept s next label,
    run.abstracts inv (fun s label next => kept s next label) ?_⟩
  rintro s label next inv ⟨event, taken, rfl⟩
  exact inv.view_step source taken

/-! ## Pages that come in once -/

/--
No fault is on a page of two areas, or on one that may be written but not
read, which the processor never translates.
-/
def PagesOnce (cfg : Config) (s : System) (event : AccessEvent) : Prop :=
  ForksReady cfg s event ∧
    match event with
    | .pageFault id _ badAddr => ∀ t, s.task[id]? = some t →
        t.OneArea (badAddr / 4096) ∧
          ∀ vma ∈ t.mmap, vma.Covers (badAddr / 4096) →
            has vmWrite vma.vmFlags → has vmRead vma.vmFlags
    | _ => True

/-- An entry of an area allows what the area allows, but for stores to a shared page. -/
theorem userPerm_allows {vmFlags perm : Nat} (small : vmFlags < 16)
    (form : UserPerm vmFlags perm)
    (readable : has vmWrite vmFlags → has vmRead vmFlags) {access : Access}
    (allowed : has access.vmFlag vmFlags)
    (writes : access = .store → has permW perm) :
    LeafEntry perm ∧ allows .user access perm = true := by
  rcases form with rfl | rfl
  · revert vmFlags
    cases access <;> decide
  · revert vmFlags
    cases access <;> decide

/-- Without copy-on-write a store finds no entry, or one that is writable. -/
theorem cowEntry_store_none {mem : Bytes} {t : Task} {badAddr : Nat}
    (cow : cowEntry mem t .store badAddr = none)
    (valid : has permV (leaf mem t.pgd (badAddr / 4096))) :
    has permW (leaf mem t.pgd (badAddr / 4096)) := by
  by_contra readOnly
  rw [leaf] at valid readOnly
  cases reached : walk (findTable mem) t.pgd (path (badAddr / 4096)) with
  | none =>
      rw [reached] at valid
      exact not_has_zero permV valid
  | some table =>
      rw [reached] at valid readOnly
      have pointer : findPte mem t.pgd (pgRoundDown badAddr) =
          some (table, index 0 (badAddr / 4096)) := by
        rw [pgRoundDown_eq, findPte_page, reached]
        rfl
      have shared : word mem table (index 0 (badAddr / 4096)) &&& permV ≠ 0 ∧
          word mem table (index 0 (badAddr / 4096)) &&& permW = 0 :=
        ⟨valid, by simpa [has] using readOnly⟩
      simp only [cowEntry, pointer, if_pos shared] at cow
      cases cow

/-- A fault without copy-on-write is on a page that the task does not have. -/
theorem ImageInv.fills_absent {cfg : Config} {s next : System}
    {event : AccessEvent} (inv : ImageInv cfg s)
    (taken : Guarded (AccessStep cfg) (PagesOnce cfg) s event next) :
    Memories.FillsAbsent s.view (observe cfg s event) := by
  obtain ⟨kernel, _, spaces⟩ := inv
  obtain ⟨step, ⟨blank, _⟩, once⟩ := taken
  cases step with
  | load | store | fork => trivial
  | @pageFault _ id badAddr access t taskAt raised step =>
      cases step with
      | pageFault taskAt' returns succeeds =>
          obtain rfl := Option.some_inj.1 (taskAt'.symm.trans taskAt)
          obtain ⟨vma, found, allowed, _⟩ :=
            spaces.doPageFault blank taskAt returns succeeds
          have member := List.mem_of_getElem? taskAt
          obtain ⟨isArea, area, contains, small, user⟩ :=
            spaces.fault_page member found
          obtain ⟨oneArea, readable⟩ := once _ taskAt
          cases cow : cowEntry s.machine.mem _ access badAddr with
          | some slot =>
              rw [observe_copied taskAt cow]
              trivial
          | none =>
              rw [observe_demand taskAt found cow]
              intro va filled
              have samePage : va / 4096 = badAddr / 4096 := by
                by_contra different
                exact filled (if_neg different)
              refine view_eq_none.2 ?_
              by_contra held
              -- The page is there: its entry is one of the area of the fault.
              obtain ⟨frame, isHeld⟩ := Option.ne_none_iff_exists'.1 held
              have valid := (holds_eq_some.1 isHeld).1
              rw [samePage, pte_task taskAt user] at valid
              obtain ⟨other, otherArea, covers, perm, form, parts⟩ :=
                spaces.granted id _ _ taskAt user valid
              obtain rfl := oneArea other otherArea vma isArea covers
                ⟨badAddr, contains, rfl⟩
              have writes (isStore : access = .store) : has permW perm := by
                subst isStore
                have writable := cowEntry_store_none cow valid
                rw [parts] at writable
                exact (@has_entry _ _ 2 (by decide)).1 writable
              obtain ⟨isLeaf, allows⟩ := userPerm_allows area.flags form
                (readable other isArea ⟨badAddr, contains, rfl⟩) allowed writes
              rw [spaces.translate_eq taskAt small, pte_task taskAt user, parts,
                if_pos ⟨(leafEntry_entry _ _).2 isLeaf,
                  (allows_entry _ _ _ _).trans allows⟩] at raised
              cases raised

theorem ready_of_once {cfg : Config} {s next : System} {event : AccessEvent}
    (taken : Guarded (AccessStep cfg) (PagesOnce cfg) s event next) :
    Guarded (AccessStep cfg) (ForksReady cfg) s event next :=
  ⟨taken.1, taken.2.1⟩

/-- In a run in which pages come in once, the memories only fill what is absent. -/
theorem ImageInv.view_run_once {cfg : Config} (source : cfg.absentNull = false)
    {start s : System} {events : List (MemoryEvent Nat Nat Byte)}
    (inv : ImageInv cfg start)
    (run : Run (Accesses cfg (PagesOnce cfg)) start events s) :
    ImageInv cfg s ∧
      Run (Guarded Memories.Step Memories.FillsAbsent) start.view events
        s.view := by
  have kept (s next : System) (label : MemoryEvent Nat Nat Byte)
      (inv : ImageInv cfg s)
      (taken : Accesses cfg (PagesOnce cfg) s label next) :
      ImageInv cfg next := by
    obtain ⟨event, taken, _⟩ := taken
    exact (inv.accessed source (ready_of_once taken)).1
  refine ⟨run.invariant inv fun s label next => kept s next label,
    run.abstracts inv (fun s label next => kept s next label) ?_⟩
  rintro s label next inv ⟨event, taken, rfl⟩
  exact ⟨inv.view_step source (ready_of_once taken), inv.fills_absent taken⟩

/-! ## A stack that is forked -/

namespace ForkedStack

open SmallProgram (config)
open StackLeak

/-- The first task has forked, and copied the page of its stack. -/
def copied : System :=
  faulted (forked (stored false)) 0 .store

/-- Then it has written to it. -/
def written : System :=
  copied.store
    ((translate copied.machine.mem (task copied 0).pgd .user .store top).getD 0)
    3

/-- The state is one with a task whose only area is the stack. -/
def HasStack (s : System) (id : Nat) : Prop :=
  s.task[id]? = some (task s id) ∧ (task s id).mmap = [stackArea.vma]

instance (s : System) (id : Nat) : Decidable (HasStack s id) :=
  inferInstanceAs (Decidable (_ ∧ _))

/-- What the run comes to, evaluated. -/
theorem facts :
    (HasStack booted 0 ∧ Faults booted 0 .store) ∧
    (HasStack (faulted booted 0 .store) 0 ∧
      translate (faulted booted 0 .store).machine.mem
        (task (faulted booted 0 .store) 0).pgd .user .store top =
          some address) ∧
    (HasStack (stored false) 0 ∧
      translate (stored false).machine.mem (task (stored false) 0).pgd .user
        .load top = some address) ∧
    (HasStack (forked (stored false)) 0 ∧
      HasStack (forked (stored false)) 2 ∧
      translate (forked (stored false)).machine.mem
        (task (forked (stored false)) 2).pgd .user .load top = some address) ∧
    (HasStack copied 0 ∧
      (translate copied.machine.mem (task copied 0).pgd .user .store top).isSome =
        true) ∧
    (HasStack written 2 ∧
      translate written.machine.mem (task written 2).pgd .user .load top =
        some address) := by
  decide +kernel

theorem HasStack.once {s : System} {id : Nat} (has : HasStack s id)
    (access : Access) :
    PagesOnce (config .kallocZeroed) s (.pageFault id access top) := by
  refine ⟨⟨blank _, trivial⟩, fun t taskAt => ?_⟩
  obtain rfl := Option.some_inj.1 (has.1.symm.trans taskAt)
  rw [Task.OneArea, has.2]
  refine ⟨fun left isLeft right isRight _ _ => ?_, fun vma isArea _ _ => ?_⟩
  · rw [List.mem_singleton.1 isLeft, List.mem_singleton.1 isRight]
  · rw [List.mem_singleton.1 isArea]
    decide

theorem taken {s : System} {id : Nat} {access : Access}
    (has : HasStack s id) (faults : Faults s id access) :
    Guarded (AccessStep (config .kallocZeroed))
      (PagesOnce (config .kallocZeroed)) s (.pageFault id access top)
      (faulted s id access) :=
  ⟨.pageFault faults.1 faults.2.1 (.pageFault faults.1 faults.served
    faults.2.2.2), has.once access⟩

/-- The steps up to the fork. -/
theorem stored_run :
    Run (Accesses (config .kallocZeroed) (ForksReady (config .kallocZeroed)))
      booted
      [observe (config .kallocZeroed) booted (.pageFault 0 .store top),
        .store 0 top 2] (stored false) := by
  obtain ⟨⟨has, faults⟩, ⟨at_, translates⟩, _⟩ := facts
  obtain ⟨step, ready, _⟩ := taken has faults
  refine Run.cons ⟨_, ⟨step, ready⟩, rfl⟩ (Run.single ⟨.store 0 top 2, ?_, rfl⟩)
  exact ⟨.store at_.1 (by decide) translates, blank _, trivial⟩

theorem forked_taken :
    Guarded (AccessStep (config .kallocZeroed))
      (ForksReady (config .kallocZeroed)) (stored false) (.fork 0)
      (forked (stored false)) := by
  obtain ⟨step, ready⟩ := StackLeak.forked_taken false
  cases step with
  | fork step => exact ⟨.fork step, ready⟩

/-- The steps of the parent after the fork. -/
theorem written_run :
    Run (Accesses (config .kallocZeroed) (PagesOnce (config .kallocZeroed)))
      (forked (stored false))
      [observe (config .kallocZeroed) (forked (stored false))
        (.pageFault 0 .store top), .store 0 top 3] written := by
  obtain ⟨_, _, _, ⟨has, _⟩, ⟨at_, translates⟩, _⟩ := facts
  obtain ⟨_, _, ⟨faults, _⟩, _⟩ := StackLeak.facts false
  refine Run.cons ⟨_, taken has faults, rfl⟩
    (Run.single ⟨.store 0 top 3, ?_, rfl⟩)
  obtain ⟨pa, reaches⟩ := Option.isSome_iff_exists.1 translates
  have stored : AccessStep (config .kallocZeroed) copied (.store 0 top 3)
      (copied.store pa 3) := .store at_.1 (by decide) reaches
  have same : copied.store pa 3 = written := by
    rw [written, reaches]
    rfl
  exact same ▸ ⟨stored, ⟨blank _, trivial⟩, trivial⟩

theorem accesses_ready (s : System) (label : MemoryEvent Nat Nat Byte)
    (next : System)
    (taken : Accesses (config .kallocZeroed) (PagesOnce (config .kallocZeroed))
      s label next) :
    Accesses (config .kallocZeroed) (ForksReady (config .kallocZeroed)) s label
      next := by
  obtain ⟨event, taken, observed⟩ := taken
  exact ⟨event, ready_of_once taken, observed⟩

theorem written_stores :
    ∀ event ∈ [observe (config .kallocZeroed) (forked (stored false))
        (.pageFault 0 .store top), .store 0 top 3],
      ¬ Memories.StoresTo 2 top event := by
  rw [List.forall_mem_cons, List.forall_mem_singleton]
  exact ⟨observe_pageFault_stores _ _ _ _ _,
    fun stores => absurd stores.1 (by decide)⟩

end ForkedStack

/-! ## Memories of their own -/

/--
The kernel gives every task a memory of its own: the loads, stores, page faults
and forks of all tasks, in any order, are steps of memories in which a store
reaches one task only and a fork copies everything at once.
-/
theorem accesses_refine {cfg : Config} (source : cfg.absentNull = false)
    {mem : Bytes} {maps : List KernelMap} {programs : List (List MmapArgs)}
    {start s : System} {events : List (MemoryEvent Nat Nat Byte)}
    (blank : Blank cfg (Boot.machine cfg mem))
    (bootable : Bootable cfg maps programs)
    (booted : boot cfg mem maps programs = .ok start)
    (succeeds : start.machine.oom = false)
    (run : Run (Accesses cfg (ForksReady cfg)) start events s) :
    Run Memories.Step (fun _ _ => none) events s.view := by
  rw [← boot_view blank bootable booted succeeds]
  exact (ImageInv.view_run source (boot_inv blank bootable booted succeeds)
    run).2

open SmallProgram (config) in
open StackLeak in
/-- The run through the fork to the store behind the copied page is one of memories. -/
theorem accesses_refine_stack :
    Run Memories.Step (fun _ _ => none)
      (([observe (config .kallocZeroed) booted (.pageFault 0 .store top),
        .store 0 top 2] ++
        [observe (config .kallocZeroed) (stored false) (.fork 0)]) ++
        [observe (config .kallocZeroed) (forked (stored false))
          (.pageFault 0 .store top), .store 0 top 3])
      ForkedStack.written.view :=
  accesses_refine rfl (blank _) bootable boot_eq (by decide +kernel)
    ((ForkedStack.stored_run.append
      (Run.single ⟨_, ForkedStack.forked_taken, rfl⟩)).append
      (ForkedStack.written_run.mono ForkedStack.accesses_ready))

/--
What a task has read it reads again until it stores to the address itself,
whatever faults, forks and stores of all tasks happen in between.
-/
theorem loads_repeat {cfg : Config} (source : cfg.absentNull = false)
    {mem : Bytes} {maps : List KernelMap} {programs : List (List MmapArgs)}
    {start s s' : System} {events more : List (MemoryEvent Nat Nat Byte)}
    (blank : Blank cfg (Boot.machine cfg mem))
    (bootable : Bootable cfg maps programs)
    (booted : boot cfg mem maps programs = .ok start)
    (succeeds : start.machine.oom = false)
    (before : Run (Accesses cfg (ForksReady cfg)) start events s)
    (run : Run (Accesses cfg (PagesOnce cfg)) s more s')
    {id va pa pa' : Nat} {access access' : Access} {t t' : Task}
    (taskAt : s.task[id]? = some t) (taskAt' : s'.task[id]? = some t')
    (user : va < 2 ^ 38)
    (notStored : ∀ event ∈ more, ¬ Memories.StoresTo id va event)
    (translates : translate s.machine.mem t.pgd .user access va = some pa)
    (translates' : translate s'.machine.mem t'.pgd .user access' va =
      some pa') :
    s'.machine.mem pa' = s.machine.mem pa := by
  obtain ⟨inv, _⟩ := ImageInv.view_run source
    (boot_inv blank bootable booted succeeds) before
  obtain ⟨inv', views⟩ := inv.view_run_once source run
  obtain ⟨_, _, spaces⟩ := inv
  obtain ⟨_, _, spaces'⟩ := inv'
  have here := spaces.view_translate taskAt user translates
  have there := spaces'.view_translate taskAt' user translates'
  have kept := Memories.run_unchanged views here notStored
  exact Option.some_inj.1 (there.symm.trans kept)

open SmallProgram (config) in
open StackLeak ForkedStack in
/-- The child reads the same before and after its parent has written. -/
theorem loads_repeat_written :
    top < 2 ^ 38 ∧ written.machine.mem address =
      (forked (stored false)).machine.mem address := by
  obtain ⟨_, _, _, ⟨_, before, reads⟩, _, after, readsAfter⟩ :=
    ForkedStack.facts
  refine ⟨by decide, ?_⟩
  exact loads_repeat rfl (blank _) bootable boot_eq (by decide +kernel)
    (stored_run.append (Run.single ⟨_, forked_taken, rfl⟩)) written_run
    before.1 after.1 (by decide) written_stores reads readsAfter

/--
After a fork parent and child read at each address what the parent read before
it, until the one that reads has stored there: no store of the other is seen.
-/
theorem fork_separates {cfg : Config} (source : cfg.absentNull = false)
    {mem : Bytes} {maps : List KernelMap} {programs : List (List MmapArgs)}
    {start s forked s' : System}
    {events more : List (MemoryEvent Nat Nat Byte)}
    (blank : Blank cfg (Boot.machine cfg mem))
    (bootable : Bootable cfg maps programs)
    (booted : boot cfg mem maps programs = .ok start)
    (succeeds : start.machine.oom = false)
    (before : Run (Accesses cfg (ForksReady cfg)) start events s)
    {parent reader va pa pa' : Nat}
    (forks : Guarded (AccessStep cfg) (ForksReady cfg) s (.fork parent) forked)
    (run : Run (Accesses cfg (PagesOnce cfg)) forked more s')
    {access access' : Access} {t t' : Task}
    (isReader : reader = parent ∨ reader = s.task.length)
    (taskAt : s.task[parent]? = some t) (taskAt' : s'.task[reader]? = some t')
    (user : va < 2 ^ 38)
    (notStored : ∀ event ∈ more, ¬ Memories.StoresTo reader va event)
    (translates : translate s.machine.mem t.pgd .user access va = some pa)
    (translates' : translate s'.machine.mem t'.pgd .user access' va =
      some pa') :
    s'.machine.mem pa' = s.machine.mem pa := by
  obtain ⟨inv, _⟩ := ImageInv.view_run source
    (boot_inv blank bootable booted succeeds) before
  obtain ⟨_, copies⟩ := inv.view_step source forks
  obtain ⟨inv', views⟩ := (inv.accessed source forks).1.view_run_once source run
  obtain ⟨_, _, spaces⟩ := inv
  obtain ⟨_, _, spaces'⟩ := inv'
  have here := spaces.view_translate taskAt user translates
  have there := spaces'.view_translate taskAt' user translates'
  have copied : forked.view reader va = some (s.machine.mem pa) := by
    rw [copies, observe]
    rcases isReader with rfl | rfl
    · rw [Memories.after_fork_of_ne _ (Nat.ne_of_lt (lt_length taskAt))]
      exact here
    · rw [Memories.after_fork_child]
      exact here
  have kept := Memories.run_unchanged views copied notStored
  exact Option.some_inj.1 (there.symm.trans kept)

open SmallProgram (config) in
open StackLeak ForkedStack in
/-- The child reads what its parent had stored before the fork. -/
theorem fork_separates_written :
    written.machine.mem address = (stored false).machine.mem address := by
  obtain ⟨_, _, ⟨before, reads⟩, _, _, after, readsAfter⟩ := ForkedStack.facts
  exact fork_separates rfl (blank _) bootable boot_eq (by decide +kernel)
    stored_run forked_taken written_run (Or.inr (by decide +kernel)) before.1
    after.1 (by decide) written_stores reads readsAfter

/-! ## Programs that fork -/

/-- What the program of the task has at the address, for the contents `file` of the ramdisk. -/
def ProgramByte (cfg : Config) (file : Bytes) (s : System) (id va : Nat)
    (value : Byte) : Prop :=
  ∃ t vma, s.task[id]? = some t ∧ vma ∈ t.mmap ∧ vma.InFile cfg va ∧
    value = file (vma.fileAddress cfg va)

/-- What tasks and their children have of their programs. -/
structure ProgramInv (cfg : Config) (file : Bytes)
    (events : List (MemoryEvent Nat Nat Byte)) (s : System) : Prop where
  spaces : ImageInv cfg s
  ramdisk : ∀ address, cfg.InRamdisk address →
    s.machine.mem address = file address
  memories : Run Memories.Step (fun _ _ => none) events s.view
  contents : ∀ (id va : Nat) (value first : Byte),
    ProgramByte cfg file s id va first → s.view id va = some value →
    value = (Memories.lastStored events id va).getD first

namespace ProgramInv

variable {cfg : Config} {file : Bytes}
    {events : List (MemoryEvent Nat Nat Byte)} {s next : System}
    {event : AccessEvent}

/-- What a fault brings is what the program has there. -/
theorem fill (inv : ProgramInv cfg file events s)
    (taken : Guarded (AccessStep cfg) (PagesOnce cfg) s event next)
    {id va : Nat} {contents : Nat → Option Byte} {value first : Byte}
    (fills : observe cfg s event = .fill id contents)
    (isProgram : ProgramByte cfg file s id va first)
    (filled : contents va = some value) : value = first := by
  obtain ⟨kernel, image, spaces⟩ := inv.spaces
  obtain ⟨step, ⟨blank, _⟩, once⟩ := taken
  cases step with
  | load | store | fork => cases fills
  | @pageFault _ faulter badAddr access t faultAt raised step =>
      cases step with
      | pageFault faultAt' returns succeeds =>
          obtain rfl := Option.some_inj.1 (faultAt'.symm.trans faultAt)
          obtain ⟨vma, found, _⟩ :=
            spaces.doPageFault blank faultAt returns succeeds
          obtain ⟨isArea, _, contains, small, _⟩ :=
            spaces.fault_page (List.mem_of_getElem? faultAt) found
          cases cow : cowEntry s.machine.mem _ access badAddr with
          | some slot =>
              rw [observe_copied faultAt cow] at fills
              cases fills
          | none =>
              rw [observe_demand faultAt found cow] at fills
              obtain ⟨rfl, rfl⟩ := MemoryEvent.fill.inj fills
              obtain ⟨t, vma', taskAt, isArea', inFile, rfl⟩ := isProgram
              obtain rfl := Option.some_inj.1 (taskAt.symm.trans faultAt)
              rw [pageIn] at filled
              split at filled
              · rename_i samePage
                obtain rfl := (once _ taskAt).1 vma' isArea' vma isArea
                  ⟨va, inFile.contains, samePage⟩ ⟨_, contains, rfl⟩
                have allocOk := spaces.demand_allocates taskAt found
                  ⟨blank, cow, returns, succeeds⟩
                calc
                  value = Inv.demandFill cfg s.machine vma' _ _ :=
                    (Option.some_inj.1 filled).symm
                  _ = s.machine.mem (vma'.fileAddress cfg va) :=
                    spaces.demandFill_byte image allocOk small
                      inFile.fileBacked samePage inFile.contains
                      inFile.inRamdisk.1
                  _ = file (vma'.fileAddress cfg va) :=
                    inv.ramdisk _ inFile.inRamdisk
              · cases filled

theorem step (source : cfg.absentNull = false)
    (inv : ProgramInv cfg file events s)
    (taken : Guarded (AccessStep cfg) (PagesOnce cfg) s event next) :
    ProgramInv cfg file (events ++ [observe cfg s event]) next := by
  have ready : Guarded (AccessStep cfg) (ForksReady cfg) s event next :=
    ⟨taken.1, taken.2.1⟩
  obtain ⟨spaces, kept⟩ := inv.spaces.accessed source ready
  have seen := inv.spaces.view_step source ready
  have absent := inv.spaces.fills_absent taken
  refine
    { spaces
      ramdisk := fun address inRamdisk =>
        (kept address inRamdisk).trans (inv.ramdisk address inRamdisk)
      memories := .snoc inv.memories seen
      contents := ?_ }
  intro id va value first isProgram held
  rw [Memories.lastStored_snoc]
  refine Memories.Step.last_or_origin ⟨seen, absent⟩
    (fun id va => Memories.run_stored_present inv.memories) inv.contents ?_ ?_ ?_
    isProgram held
  · intro id contents va value first fills isProgram filled
    refine inv.fill taken fills ?_ filled
    rcases AccessStep.tasks ready inv.spaces with ⟨parent, t, child, rfl, _⟩ | ⟨_, same⟩
    · cases fills
    · rwa [ProgramByte, same] at isProgram
  · intro parent child va first forks isProgram
    rcases AccessStep.tasks ready inv.spaces with
      ⟨other, t, last, rfl, taskAt, tasks, areas⟩ | ⟨notFork, _⟩
    · obtain ⟨rfl, rfl⟩ := MemoryEvent.fork.inj forks
      obtain ⟨t', vma, lastAt, isArea, inFile, rfl⟩ := isProgram
      rw [tasks, List.getElem?_concat_length, Option.some_inj] at lastAt
      subst lastAt
      rw [areas, List.mem_reverse] at isArea
      exact ⟨t, vma, taskAt, isArea, inFile, rfl⟩
    · exact absurd forks (observe_ne_fork notFork)
  · intro id va first notFork isProgram
    rcases AccessStep.tasks ready inv.spaces with
      ⟨other, t, last, rfl, taskAt, tasks, areas⟩ | ⟨_, same⟩
    · have notLast : id ≠ s.task.length := fun same =>
        notFork other (same ▸ rfl)
      obtain ⟨t', vma, here, rest⟩ := isProgram
      rw [tasks] at here
      rcases Nat.lt_or_gt_of_ne notLast with below | above
      · rw [List.getElem?_append_left below] at here
        exact ⟨t', vma, here, rest⟩
      · rw [List.getElem?_eq_none (by simp; omega)] at here
        cases here
    · rwa [ProgramByte, same] at isProgram

end ProgramInv

/--
Programs with forks: as long as pages come in once, every task reads at the
addresses of its program the last byte that it stored, or its parent before
the fork, or else the byte of the file.
-/
theorem forkedPrograms_see {cfg : Config} (source : cfg.absentNull = false)
    {mem : Bytes} {maps : List KernelMap} {programs : List (List MmapArgs)}
    {start s : System} {events : List (MemoryEvent Nat Nat Byte)}
    (blank : Blank cfg (Boot.machine cfg mem))
    (bootable : Bootable cfg maps programs)
    (booted : boot cfg mem maps programs = .ok start)
    (succeeds : start.machine.oom = false)
    (run : Run (Accesses cfg (PagesOnce cfg)) start events s)
    {id va pa : Nat} {access : Access} {t : Task} {vma : Vma}
    (taskAt : s.task[id]? = some t) (isArea : vma ∈ t.mmap)
    (inFile : vma.InFile cfg va)
    (translates : translate s.machine.mem t.pgd .user access va = some pa) :
    s.machine.mem pa = (Memories.lastStored events id va).getD
      (start.machine.mem (vma.fileAddress cfg va)) := by
  have inv : ProgramInv cfg start.machine.mem events s := by
    refine run.invariant_history ?_ ?_
    · refine ⟨boot_inv blank bootable booted succeeds, fun _ _ => rfl, ?_, ?_⟩
      · rw [boot_view blank bootable booted succeeds]
        exact .nil
      · intro id va value first _ held
        rw [boot_view blank bootable booted succeeds] at held
        cases held
    · rintro events s label next inv ⟨event, taken, rfl⟩
      exact inv.step source taken
  obtain ⟨kernel, _, spaces⟩ := inv.spaces
  have area := spaces.areas t (List.mem_of_getElem? taskAt) vma isArea
  have below := area.below
  have upper := inFile.contains.2
  simp only [userEnd] at below
  exact inv.contents id va _ _ ⟨t, vma, taskAt, isArea, inFile, rfl⟩
    (spaces.view_translate taskAt (by omega) translates)

namespace SmallElf

open SmallProgram (config)

theorem firstFault_taken :
    Guarded (AccessStep (config .kallocZeroed))
      (PagesOnce (config .kallocZeroed)) booted (.pageFault 0 .load 0x1000)
      firstFault.system := by
  have succeeds : loaded.oom = false := by decide +kernel
  refine ⟨.pageFault booted_task (by decide +kernel)
    (.pageFault booted_task fault_eq succeeds), ⟨blank _, trivial⟩, ?_⟩
  intro t taskAt
  have same : task = t := Option.some_inj.1 (booted_task.symm.trans taskAt)
  subst same
  refine ⟨oneArea, ?_⟩
  rw [mmap_eq]
  intro vma isArea _ _
  rcases List.mem_pair.1 isArea with rfl | rfl <;> decide

end SmallElf

open SmallProgram (config) in
open SmallElf in
/-- After the first fault the small program reads a byte of its segment. -/
theorem forkedPrograms_see_small :
    firstFault.system.machine.mem
        (4096 * entryPpn (leaf loaded.mem task.pgd 1)) =
      (Memories.lastStored [observe (config .kallocZeroed) booted
        (.pageFault 0 .load 0x1000)] 0 0x1000).getD
        (booted.machine.mem
          (data.args.vma.fileAddress (config .kallocZeroed) 0x1000)) := by
  have taskAt : firstFault.system.task[0]? = some task := by decide +kernel
  have isArea : data.args.vma ∈ task.mmap := by decide +kernel
  have inFile : data.args.vma.InFile (config .kallocZeroed) 0x1000 :=
    ⟨by decide, by decide, by decide, by decide, by decide⟩
  have translates : translate firstFault.system.machine.mem task.pgd .user .load
      0x1000 = some (4096 * entryPpn (leaf loaded.mem task.pgd 1)) := by
    decide +kernel
  refine forkedPrograms_see rfl (blank _) ⟨?_, by simp, ?_⟩ boot_eq
    (by decide +kernel) (Run.single ⟨_, firstFault_taken, rfl⟩) taskAt isArea
    inFile translates
  · exact (SmallProgram.bootable .kallocZeroed).layout
  · intro areas isProgram args isArea
    obtain rfl := List.mem_singleton.1 isProgram
    rcases List.mem_pair.1 isArea with rfl | rfl
    · exact ⟨by decide, by decide, by decide⟩
    · exact ⟨by decide, by decide, by decide⟩

end TinyRiscvOs.Vm
