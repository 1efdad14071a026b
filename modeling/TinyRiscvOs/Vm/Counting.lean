import Mathlib.Data.List.ReduceOption
import TinyRiscvOs.Vm.System
import TinyRiscvOs.Vm.WholeTree

/-!
# Counting the users of a frame

`ref_cnt` bounds the entries for a frame from above.  It is exact for the
frames of user pages as long as no entry is overwritten without a release and
no fork takes two references for one entry.  Both happen where two areas of a
task share a page.
-/

namespace TinyRiscvOs.Vm

open TinyRiscvOs.Lib
open TinyRiscvOs.Mm

/-! ## Entries without `PERM_W` -/

theorem has_readOnly (value : Nat) :
    has permV (readOnly value) ↔ has permV value := by
  have flag : permV = 2 ^ 0 := by decide
  rw [flag, has_two_pow, has_two_pow, readOnly, Nat.testBit_and,
    testBit_complement (by decide), Nat.testBit_two_pow_of_ne (n := 2) (by decide)]
  simp

theorem entryPpn_readOnly (value : Nat) :
    entryPpn (readOnly value) = entryPpn value := by
  have mask : ppnMask = 2 ^ 44 - 1 := by decide
  have flag : permW = 2 ^ 2 := by decide
  refine Nat.eq_of_testBit_eq fun bit => ?_
  simp only [entryPpn, readOnly, mask, Nat.testBit_and, Nat.testBit_shiftRight,
    Nat.testBit_two_pow_sub_one]
  by_cases inside : bit < 44
  · rw [testBit_complement (by omega), flag,
      Nat.testBit_two_pow_of_ne (by omega)]
    simp
  · simp [inside]

/-! ## A fault -/

namespace Faulted

variable {cfg : Config} {task : List Task} {kernel : Finset Nat} {budget : Nat}
    {m after : Machine} {slot : Slot} {frame perm : Nat} {released : Option Nat}
    {filled : Bytes}

/-- The page names the new frame. -/
theorem holds_new {vmFlags : Nat} (afterInv : Inv cfg task kernel budget after)
    (faulted : Faulted cfg task m slot frame (pagePerm vmFlags) released filled
      after) (flags : vmFlags < 16) :
    holds after.mem task slot = some frame := by
  have frameSmall : frame < 2 ^ 44 := by
    rcases afterInv.allocator with ⟨_, allocator, _⟩
    have counted := faulted.counted
    rw [count] at counted
    exact allocator.lt_ppn ⟨faulted.lower, by omega⟩
  obtain ⟨valid, ppn, _⟩ := entry_holds frameSmall (pagePerm_lt flags)
    (UserPerm.flags (Or.inl rfl) flags).1
  rw [holds_eq_some, faulted.pte, if_pos rfl]
  exact ⟨valid, ppn⟩

/-- The new frame has its one holder. -/
theorem exact_new (inv : Inv cfg task kernel budget m)
    (faulted : Faulted cfg task m slot frame perm released filled after)
    (holdsNew : holds after.mem task slot = some frame) :
    Exact (holds after.mem task) (count after) frame := by
  refine Exact.first slot (fun other => ⟨fun held => ?_, ?_⟩)
    faulted.counted
  · by_contra different
    have same : Vm.pte after.mem task other = Vm.pte m.mem task other := by
      rw [faulted.pte, if_neg different]
    rw [holds_congr same] at held
    exact faulted.isFresh (inv.users other frame held).1
  · rintro rfl
    exact holdsNew

/-- The other frames keep their holders, but for the one released. -/
theorem exact_old
    (faulted : Faulted cfg task m slot frame perm released filled after)
    (holdsNew : holds after.mem task slot = some frame)
    (alone : holds m.mem task slot = released) {other : Nat}
    (live : Live m other)
    (exact : Exact (holds m.mem task) (count m) other) :
    Exact (holds after.mem task) (count after) other := by
  have notNew : frame ≠ other := fun same => faulted.isFresh (same ▸ live)
  have left : holds after.mem task slot ≠ some other := by
    rw [holdsNew]
    exact fun same => notNew (Option.some_inj.1 same)
  have others : ∀ holder, holder ≠ slot →
      holds after.mem task holder = holds m.mem task holder := by
    intro holder different
    refine holds_congr ?_
    rw [faulted.pte, if_neg different]
  have counts := faulted.counts other live
  by_cases here : released = some other
  · rw [if_pos here] at counts
    exact exact.leave (alone.trans here) left others counts
  · rw [if_neg here] at counts
    refine exact.congr (fun holder => ?_) counts
    by_cases same : holder = slot
    · subst same
      exact iff_of_false left (alone ▸ here)
    · rw [others holder same]

/-- A frame whose entry is overwritten without a release is counted once too often. -/
theorem not_exact (faulted : Faulted cfg task m slot frame perm none filled after)
    (holdsNew : holds after.mem task slot = some frame) {other : Nat}
    (held : holds m.mem task slot = some other) (live : Live m other)
    (exact : Exact (holds m.mem task) (count m) other) :
    ¬ Exact (holds after.mem task) (count after) other := by
  intro stillExact
  have left : holds after.mem task slot ≠ some other := by
    rw [holdsNew]
    exact fun same => faulted.isFresh (Option.some_inj.1 same ▸ live)
  have others : ∀ holder, holder ≠ slot →
      holds after.mem task holder = holds m.mem task holder := by
    intro holder different
    refine holds_congr ?_
    rw [faulted.pte, if_neg different]
  have fewer : Exact (holds after.mem task) (fun frame => count m frame - 1)
      other :=
    exact.leave held left others rfl
  have counts := faulted.counts other live
  have same := stillExact.count_eq fewer
  have counted : 0 < count m other := live.2
  rw [if_neg (by simp)] at counts
  omega

end Faulted

/-- A fault keeps counts exact when it overwrites no entry without releasing its frame. -/
theorem Inv.doPageFault_exact {cfg : Config} {task : List Task}
    {kernel : Finset Nat} {budget : Nat} {m after : Machine}
    (inv : Inv cfg task kernel budget m) (blank : Blank cfg m)
    {id badAddr : Nat} {t : Task} {access : Access} (taskAt : task[id]? = some t)
    (unmapped : cowEntry m.mem t access badAddr = none →
      ¬ Mapped m.mem t.pgd (badAddr / 4096))
    (returns : Vm.doPageFault cfg m t access badAddr = .ok after)
    (succeeds : after.oom = false) :
    ramBase ≤ (cfg.allocPage m).1 ∧
      Exact (holds after.mem task) (count after) (cfg.allocPage m).1 ∧
      ∀ frame, Live m frame → Exact (holds m.mem task) (count m) frame →
        Exact (holds after.mem task) (count after) frame := by
  have member := List.mem_iff_getElem?.2 ⟨id, taskAt⟩
  obtain ⟨vma, found, _, afterInv, faulted⟩ :=
    inv.doPageFault blank taskAt returns succeeds
  obtain ⟨_, area, _, _, user⟩ := inv.fault_page member found
  cases cow : cowEntry m.mem t access badAddr with
  | none =>
      rw [cow] at faulted
      have alone : holds m.mem task (id, badAddr / 4096) = none := by
        rw [holds, pte_task taskAt user]
        exact if_neg (unmapped cow)
      have holdsNew := faulted.holds_new afterInv area.flags
      exact ⟨faulted.lower, faulted.exact_new inv holdsNew,
        fun frame => faulted.exact_old holdsNew alone⟩
  | some slot =>
      rw [cow] at faulted
      have holdsNew := faulted.holds_new afterInv area.flags
      exact ⟨faulted.lower, faulted.exact_new inv holdsNew,
        fun frame => faulted.exact_old holdsNew (faulted.held _ rfl)⟩

/-! ## A fork -/

namespace ForkStep

variable {cfg : Config} {task : List Task} {parent child : Nat} {t c : Task}
    {m after : Machine} {visit : Option Nat}

/-- A page is shared with a child that does not have it yet. -/
theorem exact (step : ForkStep cfg task parent child t m visit after)
    (parentAt : task[parent]? = some t)
    (unheld : ∀ page, visit = some page → Mapped m.mem t.pgd page →
      holds m.mem task (child, page) = none) {frame : Nat}
    (live : Live m frame)
    (exact : Exact (holds m.mem task) (count m) frame) :
    Live after frame ∧ Exact (holds after.mem task) (count after) frame ∧
      ∀ page, holds after.mem task (child, page) = none ∨
        holds after.mem task (child, page) = holds m.mem task (child, page) ∨
        visit = some page := by
  cases step with
  | claimed inv prepared =>
      have same : ∀ slot, holds after.mem task slot = holds m.mem task slot :=
        fun slot => holds_congr (prepared.pte slot)
      refine ⟨prepared.live_of frame live,
        exact.congr (fun slot => by rw [same]) (prepared.counts frame live), ?_⟩
      exact fun page => Or.inr (Or.inl (same _))
  | @visited _ page _ _ inv user round kernelKept =>
      rw [Round] at round
      by_cases valid : has permV (leaf m.mem t.pgd page)
      · rw [if_pos valid] at round
        have shared := round
        have before := unheld page rfl valid
        have parentHolds : holds m.mem task (parent, page) =
            some (entryPpn (leaf m.mem t.pgd page)) := by
          rw [holds_eq_some, pte_task parentAt user]
          exact ⟨valid, rfl⟩
        have here : ∀ slot, slot = (child, page) ∨ slot = (parent, page) →
            holds after.mem task slot =
              some (entryPpn (leaf m.mem t.pgd page)) := by
          intro slot isHere
          rw [holds_eq_some, shared.pte, if_pos isHere, has_readOnly,
            entryPpn_readOnly]
          exact ⟨valid, rfl⟩
        have others : ∀ slot, slot ≠ (child, page) →
            holds after.mem task slot = holds m.mem task slot := by
          intro slot notChild
          by_cases isParent : slot = (parent, page)
          · rw [here slot (Or.inr isParent), isParent, parentHolds]
          · refine holds_congr ?_
            rw [shared.pte, if_neg (not_or.2 ⟨notChild, isParent⟩)]
        have counts := shared.counts frame live
        refine ⟨shared.live frame live, ?_, fun other => ?_⟩
        · by_cases same : frame = entryPpn (leaf m.mem t.pgd page)
          · rw [if_pos same] at counts
            refine exact.join (child, page) ?_ ?_ others counts
            · rw [before]
              exact fun none => by cases none
            · rw [here _ (Or.inl rfl), same]
          · rw [if_neg same] at counts
            refine exact.congr (fun slot => ?_) counts
            by_cases isChild : slot = (child, page)
            · rw [here slot (Or.inl isChild), isChild, before]
              exact iff_of_false
                (fun equal => same (Option.some_inj.1 equal).symm)
                (fun none => by cases none)
            · rw [others slot isChild]
        · by_cases samePage : other = page
          · exact Or.inr (Or.inr (by rw [samePage]))
          · refine Or.inr (Or.inl (others _ fun same => samePage ?_))
            exact congrArg Prod.snd same
      · rw [if_neg valid] at round
        rw [round]
        exact ⟨live, exact, fun _ => Or.inr (Or.inl rfl)⟩

end ForkStep

/-- The pages that the loops of `do_fork` visit. -/
def Task.pages (t : Task) : List Nat :=
  t.mmap.flatMap Vma.pages

theorem forkVisits_pages (areas : List Vma) :
    (forkVisits areas).reduceOption = areas.flatMap Vma.pages := by
  induction areas with
  | nil => rfl
  | cons vma rest induction =>
      rw [forkVisits, List.flatMap_cons, List.reduceOption_append, ← forkVisits,
        induction, List.flatMap_cons]
      simp [List.reduceOption]

namespace ForkRun

variable {cfg : Config} {task : List Task} {parent child : Nat} {t c : Task}
    {m after : Machine} {visits : List (Option Nat)}

/-- When no mapped page is visited twice, every reference taken is for a new entry. -/
theorem exact (run : ForkRun cfg task parent child t m visits after)
    (different : parent ≠ child) (parentAt : task[parent]? = some t)
    (once : ∀ page, Mapped m.mem t.pgd page →
      visits.reduceOption.count page ≤ 1)
    (empty : ∀ page, holds m.mem task (child, page) = none) {frame : Nat}
    (live : Live m frame)
    (exact : Exact (holds m.mem task) (count m) frame) :
    Live after frame ∧ Exact (holds after.mem task) (count after) frame ∧
      ∀ page, holds after.mem task (child, page) = none ∨
        page ∈ visits.reduceOption := by
  induction run with
  | nil => exact ⟨live, exact, fun page => Or.inl (empty page)⟩
  | @snoc visits middle visit next run step induction =>
      simp only [List.reduceOption_append, List.count_append] at once
      obtain ⟨middleLive, middleExact, middleHeld⟩ :=
        induction fun page isMapped =>
          (Nat.le_add_right _ _).trans (once page isMapped)
      have kept := ForkRun.kept run different parentAt
      -- A mapped page was mapped before the fork, so this is its first visit.
      have fresh : ∀ page, visit = some page → Mapped middle.mem t.pgd page →
          holds middle.mem task (child, page) = none := by
        rintro page rfl isMapped
        refine (middleHeld page).resolve_right fun visited => ?_
        have user : page < 2 ^ 26 := by
          cases step with
          | visited _ user => exact user
        have mappedBefore : Mapped m.mem t.pgd page := by
          have own := kept.own page
          rw [pte_task parentAt user, pte_task parentAt user] at own
          rw [Mapped] at isMapped
          rcases own with same | cleared
          · rwa [same] at isMapped
          · rwa [cleared, has_readOnly] at isMapped
        have bound := once page mappedBefore
        exact List.count_eq_zero.1 (by simpa using bound) visited
      obtain ⟨nextLive, nextExact, nextHeld⟩ :=
        step.exact parentAt fresh middleLive middleExact
      refine ⟨nextLive, nextExact, fun page => ?_⟩
      rw [List.reduceOption_append, List.mem_append]
      rcases nextHeld page with none | same | rfl
      · exact Or.inl none
      · rw [same]
        exact (middleHeld page).imp_right Or.inl
      · exact Or.inr (Or.inr (by simp))

end ForkRun

namespace Inv

variable {cfg : Config} {task : List Task} {kernel : Finset Nat}
    {m after : Machine} {id : Nat} {t child : Task}

/-- Frames that are counted exactly before the fork are after it. -/
theorem doFork_exact (inv : Inv cfg task kernel (2 ^ 26 * kernel.card) m)
    (blank : Blank cfg m) (source : cfg.absentNull = false)
    (taskAt : task[id]? = some t) (present : t.HasTables m.mem)
    (once : ∀ page < 2 ^ 26, Mapped m.mem t.pgd page → t.pages.count page ≤ 1)
    (returns : Vm.doFork cfg .copyOnWrite m t = .ok (child, after))
    (succeeds : after.oom = false) {frame : Nat} (live : Live m frame)
    (exact : Exact (holds m.mem task) (count m) frame) :
    Live after frame ∧
      Exact (holds after.mem (task ++ [child])) (count after) frame := by
  have users := inv.areas t (List.mem_iff_getElem?.2 ⟨id, taskAt⟩)
  obtain ⟨rfl, pgd, _⟩ := forkScan_of_doFork users returns
  obtain ⟨_, _, _, _, _, rooted, run⟩ :=
    (inv.forkScan blank source taskAt succeeds).2 present
  have known := lt_length taskAt
  have parentAt : (task ++ [forkChild cfg m t])[id]? = some t := by
    rw [List.getElem?_append_left known]
    exact taskAt
  have roots : SameRoots (task ++ [forkChild cfg m t]) (task ++ [child]) := by
    simp only [SameRoots, List.map_append, List.map_cons, pgd]
  have rootHolds : ∀ slot,
      holds (Vm.forkRoot cfg m).2.mem (task ++ [forkChild cfg m t]) slot =
        holds m.mem task slot := fun slot => by
    rw [holds, holds, rooted.pte]
  have noChild : ¬ ∃ t, task[task.length]? = some t := by simp
  have rootOnce : ∀ page, Mapped (Vm.forkRoot cfg m).2.mem t.pgd page →
      (forkVisits t.mmap).reduceOption.count page ≤ 1 := by
    intro page isMapped
    rw [forkVisits_pages]
    by_cases user : page < 2 ^ 26
    · refine once page user ?_
      have same := rooted.pte (id, page)
      rw [pte_task parentAt user, pte_task taskAt user] at same
      rwa [Mapped, same] at isMapped
    · have absent : page ∉ t.mmap.flatMap Vma.pages := by
        intro visited
        obtain ⟨vma, isArea, inside⟩ := List.mem_flatMap.1 visited
        have within := (users vma isArea).pages_le
        have range := List.mem_range'_1.1 inside
        omega
      rw [List.count_eq_zero_of_not_mem absent]
      exact Nat.zero_le 1
  have rootEmpty : ∀ page, holds (Vm.forkRoot cfg m).2.mem
      (task ++ [forkChild cfg m t]) (task.length, page) = none := by
    intro page
    rw [rootHolds, holds, pte_eq_zero fun both => noChild (both.imp fun _ h => h.1)]
    exact if_neg (not_has_zero permV)
  obtain ⟨lastLive, lastExact, _⟩ := ForkRun.exact run (Nat.ne_of_lt known)
    parentAt rootOnce rootEmpty (rooted.live frame live)
    (exact.congr (fun slot => by rw [rootHolds]) (rooted.counts frame live))
  refine ⟨lastLive, lastExact.congr (fun slot => ?_) rfl⟩
  rw [holds, holds, roots.pte]

end Inv

/-- A step of a fault is a call of `do_page_fault`. -/
theorem SystemStep.returns {cfg : Config} {s next : System} {id badAddr : Nat}
    {access : Access} {t : Task}
    (step : SystemStep cfg s (.pageFault id access badAddr) next)
    (taskAt : s.task[id]? = some t) :
    doPageFault cfg s.machine t access badAddr = .ok next.machine ∧
      next.machine.oom = false ∧ next.task = s.task := by
  cases step with
  | pageFault otherAt returns succeeds =>
      obtain rfl := Option.some_inj.1 (taskAt.symm.trans otherAt)
      exact ⟨returns, succeeds, rfl⟩

/-! ## The frames of user pages -/

/--
The frames that page faults allocated for a page, after one more step, without
those that were free before it and given to something else by it.
-/
def userFrames (cfg : Config) (s : System) (event : SystemEvent)
    (next : System) (frames : Set Nat) : Set Nat :=
  {frame |
    (∃ id access badAddr, event = .pageFault id access badAddr ∧
      frame = (cfg.allocPage s.machine).1) ∨
    frame ∈ frames ∧ (Live s.machine frame ∨ ¬ Live next.machine frame)}

/-- A step, with the frames of user pages beside the system. -/
def TrackedStep (cfg : Config) (s : System × Set Nat) (event : SystemEvent)
    (next : System × Set Nat) : Prop :=
  SystemStep cfg s.1 event next.1 ∧
    next.2 = userFrames cfg s.1 event next.1 s.2

theorem SystemStep.tracked {cfg : Config} {s next : System}
    {event : SystemEvent} (step : SystemStep cfg s event next)
    (frames : Set Nat) :
    TrackedStep cfg (s, frames) event
      (next, userFrames cfg s event next frames) :=
  ⟨step, rfl⟩

/--
A fault on a mapped page takes the copy-on-write branch, and a fork has all
tables and visits no mapped page twice.
-/
def VisitsOnce (cfg : Config) (s : System × Set Nat) (event : SystemEvent) :
    Prop :=
  TablesThere cfg s.1 event ∧
    match event with
    | .pageFault id access badAddr => ∀ t : Task, s.1.task[id]? = some t →
        cowEntry s.1.machine.mem t access badAddr = none →
        ¬ Mapped s.1.machine.mem t.pgd (badAddr / 4096)
    | .fork id => ∀ t : Task, s.1.task[id]? = some t → ∀ page < 2 ^ 26,
        Mapped s.1.machine.mem t.pgd page → t.pages.count page ≤ 1
    | .run _ => True

/-- The counts of the frames are the numbers of their entries. -/
structure Accounted (cfg : Config) (s : System × Set Nat) : Prop where
  inv : SystemInv cfg s.1
  lower : ∀ frame ∈ s.2, ramBase ≤ frame
  exact : ∀ frame ∈ s.2,
    Exact (holds s.1.machine.mem s.1.task) (count s.1.machine) frame

section Steps

variable {cfg : Config} {s next : System × Set Nat} {event : SystemEvent}

/-- A frame out of use has no holder. -/
theorem SystemInv.exact_of_not_live {s : System} (inv : SystemInv cfg s)
    {frame : Nat} (lower : ramBase ≤ frame) (dead : ¬ Live s.machine frame) :
    Exact (holds s.machine.mem s.task) (count s.machine) frame := by
  obtain ⟨kernel, inv⟩ := inv
  refine Exact.unheld (fun slot held => dead (inv.users slot frame held).1) ?_
  by_contra counted
  exact dead ⟨lower, Nat.pos_of_ne_zero counted⟩

/-- A frame counted exactly before the step is after it, and free if it is no longer in use. -/
theorem SystemInv.step_exact (source : cfg.absentNull = false)
    (inv : SystemInv cfg s.1)
    (taken : Guarded (TrackedStep cfg) (VisitsOnce cfg) s event next)
    {frame : Nat} (live : Live s.1.machine frame)
    (exact : Exact (holds s.1.machine.mem s.1.task) (count s.1.machine) frame) :
    Exact (holds next.1.machine.mem next.1.task) (count next.1.machine) frame ∧
      (¬ Live next.1.machine frame → Free cfg.top next.1.machine frame) := by
  obtain ⟨kernel, inv⟩ := inv
  obtain ⟨system, frames⟩ := s
  obtain ⟨nextSystem, nextFrames⟩ := next
  obtain ⟨⟨step, _⟩, ⟨blank, there⟩, once⟩ := taken
  cases step with
  | pageFault taskAt returns succeeds =>
      obtain ⟨_, _, _, _, _, returned, _⟩ :=
        inv.doPageFault_kept blank taskAt returns succeeds
      obtain ⟨_, _, kept⟩ := inv.doPageFault_exact blank taskAt
        (once _ taskAt) returns succeeds
      exact ⟨kept frame live exact, returned frame live⟩
  | fork taskAt returns succeeds =>
      obtain ⟨stillLive, kept⟩ := inv.doFork_exact blank source taskAt
        (there _ taskAt) (once _ taskAt) returns succeeds live exact
      exact ⟨kept, fun dead => absurd stillLive dead⟩
  | run tables =>
      refine ⟨exact.congr (fun slot => ?_) rfl, fun dead => absurd live dead⟩
      rw [holds_congr (inv.pte_congr tables slot)]

theorem Accounted.step (source : cfg.absentNull = false)
    (accounted : Accounted cfg s)
    (taken : Guarded (TrackedStep cfg) (VisitsOnce cfg) s event next) :
    Accounted cfg next := by
  have nextInv : SystemInv cfg next.1 :=
    SystemInv.step source accounted.inv ⟨taken.1.1, taken.2.1⟩
  have fresh : ∀ id access badAddr, event = .pageFault id access badAddr →
      ramBase ≤ (cfg.allocPage s.1.machine).1 ∧
        Exact (holds next.1.machine.mem next.1.task) (count next.1.machine)
          (cfg.allocPage s.1.machine).1 := by
    rintro id access badAddr rfl
    obtain ⟨kernel, inv⟩ := accounted.inv
    obtain ⟨system, frames⟩ := s
    obtain ⟨nextSystem, nextFrames⟩ := next
    obtain ⟨⟨step, _⟩, ⟨blank, _⟩, once⟩ := taken
    cases step with
    | pageFault taskAt returns succeeds =>
        obtain ⟨lower, exact, _⟩ := inv.doPageFault_exact blank taskAt
          (once _ taskAt) returns succeeds
        exact ⟨lower, exact⟩
  have frames := taken.1.2
  refine ⟨nextInv, fun frame member => ?_, fun frame member => ?_⟩
  · rw [frames] at member
    rcases member with ⟨id, access, badAddr, isFault, rfl⟩ | ⟨old, _⟩
    · exact (fresh id access badAddr isFault).1
    · exact accounted.lower frame old
  · rw [frames] at member
    rcases member with ⟨id, access, badAddr, isFault, rfl⟩ | ⟨old, live | dead⟩
    · exact (fresh id access badAddr isFault).2
    · exact (accounted.inv.step_exact source taken live
        (accounted.exact frame old)).1
    · exact nextInv.exact_of_not_live (accounted.lower frame old) dead

end Steps

/--
In every run from the boot whose faults on mapped pages take the copy-on-write
branch and whose forks have all tables and visit no mapped page twice, every
frame of a user page is counted as often as an entry names it, and the step
that removes the last of its entries is the one that frees it.
-/
theorem references_counted {cfg : Config} (source : cfg.absentNull = false)
    {mem : Bytes} {maps : List KernelMap} {programs : List (List MmapArgs)}
    {start : System} {events : List SystemEvent} {s : System × Set Nat}
    (bootable : Bootable cfg maps programs)
    (blank : Blank cfg (Boot.machine cfg mem))
    (booted : boot cfg mem maps programs = .ok start)
    (succeeds : start.machine.oom = false)
    (run : Run (Guarded (TrackedStep cfg) (VisitsOnce cfg)) (start, ∅) events s) :
    (∀ frame ∈ s.2,
      Exact (holds s.1.machine.mem s.1.task) (count s.1.machine) frame) ∧
    ∀ event next, Guarded (TrackedStep cfg) (VisitsOnce cfg) s event next →
      ∀ frame ∈ s.2, (∃ slot, holds s.1.machine.mem s.1.task slot = some frame) →
      ((∀ slot, holds next.1.machine.mem next.1.task slot ≠ some frame) ↔
        Free cfg.top next.1.machine frame) := by
  obtain ⟨kernel, _, inv⟩ := boot_inv blank bootable booted succeeds
  have accounted : Accounted cfg s :=
    run.invariant ⟨⟨kernel, inv⟩, fun _ none => none.elim,
      fun _ none => none.elim⟩
      fun _ _ _ accounted taken => accounted.step source taken
  refine ⟨accounted.exact, fun event next taken frame member held => ?_⟩
  obtain ⟨slot, held⟩ := held
  obtain ⟨_, stateInv⟩ := accounted.inv
  obtain ⟨_, nextInv⟩ := (accounted.step source taken).inv
  have live := (stateInv.users slot frame held).1
  obtain ⟨exact, frees⟩ := accounted.inv.step_exact source taken live
    (accounted.exact frame member)
  constructor
  · intro unheld
    refine frees fun stillLive => ?_
    obtain ⟨holder, stillHeld⟩ := exact.exists_holder stillLive.2
    exact unheld holder stillHeld
  · intro free holder stillHeld
    rcases nextInv.allocator with ⟨_, allocator, _⟩
    exact allocator.not_free (nextInv.users holder frame stillHeld).1 free

namespace SmallProgram

/-- The frames after both faults, the fork and the copy. -/
def userPages : Set Nat :=
  userFrames (config .kallocZeroed) (forked .kallocZeroed)
    (.pageFault 0 .store (userEnd - 8)) (copied .kallocZeroed)
    (userFrames (config .kallocZeroed) (pushed .kallocZeroed) (.fork 0)
      (forked .kallocZeroed)
      (userFrames (config .kallocZeroed) (fetched .kallocZeroed)
        (.pageFault 0 .store (userEnd - 8)) (pushed .kallocZeroed)
        (userFrames (config .kallocZeroed) (booted .kallocZeroed)
          (.pageFault 0 .fetch 0x1000) (fetched .kallocZeroed) ∅)))

/-- A fault on a page that is not mapped, or that is copied. -/
theorem tracked {s next : System} {access : Access} {badAddr : Nat}
    {frames : Set Nat} (taskAt : s.task[0]? = some (task .kallocZeroed))
    (visited : cowEntry s.machine.mem (task .kallocZeroed) access badAddr = none →
      ¬ Mapped s.machine.mem (task .kallocZeroed).pgd (badAddr / 4096))
    (step : SystemStep (config .kallocZeroed) s (.pageFault 0 access badAddr)
      next) :
    Guarded (TrackedStep (config .kallocZeroed))
      (VisitsOnce (config .kallocZeroed)) (s, frames)
      (.pageFault 0 access badAddr)
      (next, userFrames (config .kallocZeroed) s (.pageFault 0 access badAddr)
        next frames) := by
  refine ⟨step.tracked frames, ⟨Or.inl (by decide), trivial⟩,
    fun t otherAt => ?_⟩
  obtain rfl := Option.some_inj.1 (taskAt.symm.trans otherAt)
  exact visited

/-- The fork visits the pages of the code and of the stack. -/
theorem forked_tracked (frames : Set Nat) :
    Guarded (TrackedStep (config .kallocZeroed))
      (VisitsOnce (config .kallocZeroed)) (pushed .kallocZeroed, frames)
      (.fork 0)
      (forked .kallocZeroed, userFrames (config .kallocZeroed)
        (pushed .kallocZeroed) (.fork 0) (forked .kallocZeroed) frames) := by
  obtain ⟨⟨taskAt, areas, _⟩, _⟩ := forked_facts
  refine ⟨forked_step.tracked frames, forked_tables,
    fun t otherAt page _ _ => ?_⟩
  obtain rfl := Option.some_inj.1 (taskAt.symm.trans otherAt)
  have once : (task .kallocZeroed).pages.Nodup := by
    rw [Task.pages, areas]
    decide
  exact List.nodup_iff_count_le_one.1 once page

theorem tracked_run :
    Run (Guarded (TrackedStep (config .kallocZeroed))
        (VisitsOnce (config .kallocZeroed))) (booted .kallocZeroed, ∅)
      ((([.pageFault 0 .fetch 0x1000] ++ [.pageFault 0 .store (userEnd - 8)]) ++
        [.fork 0]) ++ [.pageFault 0 .store (userEnd - 8)])
      (copied .kallocZeroed, userPages) := by
  have first : ¬ Mapped (booted .kallocZeroed).machine.mem
      (task .kallocZeroed).pgd (0x1000 / 4096) := by
    decide +kernel
  have second : ¬ Mapped (fetched .kallocZeroed).machine.mem
      (task .kallocZeroed).pgd ((userEnd - 8) / 4096) := by
    decide +kernel
  obtain ⟨_, _, taskAt, isCopied, _⟩ := forked_facts
  exact (((Run.single
      (tracked (booted_task _) (fun _ => first) (fetched_step _))).append
    (Run.single
      (tracked (fetched_task _) (fun _ => second) (pushed_step _)))).append
    (Run.single (forked_tracked _))).append
    (Run.single
      (tracked taskAt (fun none => absurd none isCopied) copied_step))

end SmallProgram

open SmallProgram in
/-- The program after a fork and a copy of its stack. -/
theorem references_counted_copied :
    (∀ frame ∈ userPages,
      Exact (holds (copied .kallocZeroed).machine.mem (copied .kallocZeroed).task)
        (count (copied .kallocZeroed).machine) frame) ∧
    ∀ event next, Guarded (TrackedStep (config .kallocZeroed))
        (VisitsOnce (config .kallocZeroed)) (copied .kallocZeroed, userPages)
        event next →
      ∀ frame ∈ userPages, (∃ slot, holds (copied .kallocZeroed).machine.mem
        (copied .kallocZeroed).task slot = some frame) →
      ((∀ slot, holds next.1.machine.mem next.1.task slot ≠ some frame) ↔
        Free (config .kallocZeroed).top next.1.machine frame) :=
  references_counted rfl (bootable _) (Or.inl (by decide)) (boot_eq _)
    (by decide +kernel) tracked_run

/-! ## Two areas on one page -/

namespace SharedPage

open SmallProgram (config result eq_ok)

/-- Data on the first half of a page. -/
def data : MmapArgs where
  addr := 0x1000
  len := 0x800
  vmPgoff := 0
  vmFilesz := 0x800
  flags := vmRead ||| vmWrite

/-- Code on the second half. -/
def text : MmapArgs where
  addr := 0x1800
  len := 0x800
  vmPgoff := 0x800
  vmFilesz := 0x800
  flags := vmRead ||| vmExec

/-- After the boot. -/
def booted : System :=
  result { machine := Boot.machine (config .kallocZeroed) fun _ => 0, task := [] }
    (boot (config .kallocZeroed) (fun _ => 0) [] [[data, text, stackArea]])

def task : Task :=
  booted.task.headD { pgd := 0, mmap := [] }

/-- The program has read its data. -/
def loaded : System where
  machine := result booted.machine
    (doPageFault (config .kallocZeroed) booted.machine task .load 0x1000)
  task := booted.task

/-- Then it has fetched an instruction. -/
def fetched : System where
  machine := result loaded.machine
    (doPageFault (config .kallocZeroed) loaded.machine task .fetch 0x1800)
  task := loaded.task

/-- The frame of the first fault. -/
def frame : Nat :=
  ((config .kallocZeroed).allocPage booted.machine).1

/-- The frames after the first fault. -/
def frames : Set Nat :=
  userFrames (config .kallocZeroed) booted (.pageFault 0 .load 0x1000) loaded ∅

theorem bootable :
    Bootable (config .kallocZeroed) [] [[data, text, stackArea]] := by
  refine ⟨(SmallProgram.bootable .kallocZeroed).layout, by simp, ?_⟩
  intro areas isProgram args isArea
  obtain rfl := List.mem_singleton.1 isProgram
  simp only [List.mem_cons, List.not_mem_nil, or_false] at isArea
  rcases isArea with rfl | rfl | rfl
  · exact ⟨by decide, by decide, by decide⟩
  · exact ⟨by decide, by decide, by decide⟩
  · exact ⟨by decide, by decide, by decide⟩

theorem boot_eq :
    boot (config .kallocZeroed) (fun _ => 0) [] [[data, text, stackArea]] =
      .ok booted :=
  eq_ok _ (by decide +kernel)

theorem booted_task : booted.task[0]? = some task := by
  decide +kernel

/-- The areas are in the list the other way round. -/
example : task.mmap = [stackArea.vma, text.vma, data.vma] := by
  decide +kernel

theorem loaded_returns :
    (doPageFault (config .kallocZeroed) booted.machine task .load
      0x1000).isOk = true := by
  decide +kernel

theorem fetched_returns :
    (doPageFault (config .kallocZeroed) loaded.machine task .fetch
      0x1800).isOk = true := by
  decide +kernel

theorem loaded_task : loaded.task[0]? = some task := by
  decide +kernel

theorem loaded_succeeds : loaded.machine.oom = false := by
  decide +kernel

theorem fetched_succeeds : fetched.machine.oom = false := by
  decide +kernel

theorem loaded_step :
    SystemStep (config .kallocZeroed) booted (.pageFault 0 .load 0x1000)
      loaded :=
  .pageFault booted_task (eq_ok booted.machine loaded_returns) loaded_succeeds

theorem fetched_step :
    SystemStep (config .kallocZeroed) loaded (.pageFault 0 .fetch 0x1800)
      fetched :=
  .pageFault loaded_task (eq_ok loaded.machine fetched_returns)
    fetched_succeeds

/-- The frame of the first fault keeps its count and has lost its entry. -/
theorem not_exact :
    frame ∈ userFrames (config .kallocZeroed) loaded (.pageFault 0 .fetch 0x1800)
      fetched frames ∧
    ¬ Exact (holds fetched.machine.mem fetched.task) (count fetched.machine)
      frame := by
  have blank (m : Machine) : Blank (config .kallocZeroed) m :=
    Or.inl (by decide)
  have booting : booted.machine.oom = false := by decide +kernel
  obtain ⟨kernel, _, inv⟩ := boot_inv (blank _) bootable boot_eq booting
  have unmapped : ¬ Mapped booted.machine.mem task.pgd (0x1000 / 4096) := by
    decide +kernel
  obtain ⟨loads, loadOk, loadedTasks⟩ := loaded_step.returns booted_task
  obtain ⟨fetches, fetchOk, fetchedTasks⟩ := fetched_step.returns loaded_task
  obtain ⟨_, exact, _⟩ := inv.doPageFault_exact (blank _) booted_task
    (fun _ => unmapped) loads loadOk
  obtain ⟨vma, found, _, loadedInv, faulted⟩ :=
    inv.doPageFault (blank _) booted_task loads loadOk
  obtain ⟨vma', found', _, fetchedInv, faulted'⟩ :=
    loadedInv.doPageFault (blank _) booted_task fetches fetchOk
  have notStore : cowEntry booted.machine.mem task .load 0x1000 = none := rfl
  have notStore' : cowEntry loaded.machine.mem task .fetch 0x1800 = none := rfl
  rw [notStore] at faulted
  rw [notStore'] at faulted'
  have member := List.mem_iff_getElem?.2 ⟨0, booted_task⟩
  obtain ⟨_, area, _⟩ := inv.fault_page member found
  obtain ⟨_, area', _⟩ := loadedInv.fault_page member found'
  have held := faulted.holds_new loadedInv area.flags
  have live := (loadedInv.users _ _ held).1
  refine ⟨Or.inr ⟨Or.inl ⟨0, .load, 0x1000, rfl, rfl⟩, Or.inl live⟩, ?_⟩
  rw [fetchedTasks, loadedTasks]
  exact faulted'.not_exact (faulted'.holds_new fetchedInv area'.flags) held live
    exact

end SharedPage

open SharedPage in
open SmallProgram (config) in
/-- An instruction fetch on the page of the data leaks the frame that the page had. -/
theorem fetch_leaks :
    Bootable (config .kallocZeroed) [] [[data, text, stackArea]] ∧
      boot (config .kallocZeroed) (fun _ => 0) [] [[data, text, stackArea]] =
        .ok booted ∧
      translate loaded.machine.mem task.pgd .user .fetch 0x1800 = none ∧
      ∃ s, Run (TrackedStep (config .kallocZeroed)) (booted, ∅)
          ([.pageFault 0 .load 0x1000] ++ [.pageFault 0 .fetch 0x1800]) s ∧
        ∃ frame ∈ s.2, ¬ Exact (holds s.1.machine.mem s.1.task)
          (count s.1.machine) frame := by
  have raised : translate loaded.machine.mem task.pgd .user .fetch 0x1800 =
      none := by
    decide +kernel
  exact ⟨bootable, boot_eq, raised, _,
    (Run.single (loaded_step.tracked ∅)).append
      (Run.single (fetched_step.tracked frames)), frame, not_exact⟩

end TinyRiscvOs.Vm
