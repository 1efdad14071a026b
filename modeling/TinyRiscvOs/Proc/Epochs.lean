import TinyRiscvOs.Proc.Sched
import Mathlib.Data.List.Sort

/-!
# Scheduler epochs

In every run of timer ticks the tasks run in epochs.  An epoch is one list of
indices: for each task, in the order of decreasing priority, as many entries as
its priority.  `Waiting` describes the counters between two stretches and
`Running` those within one; a tick either shortens the stretch, starts the next
one, or refills and starts the next epoch.
-/

namespace TinyRiscvOs.Proc

/-- The order of the stretches: higher priority first, then lower index. -/
def Before (priority : Nat → Nat) (i j : Nat) : Prop :=
  priority j < priority i ∨ (priority i = priority j ∧ i < j)

/-- One epoch: every task of the queue for as many ticks as its priority. -/
def epoch (priority : Nat → Nat) (queue : List Nat) : List Nat :=
  queue.flatMap fun i => List.replicate (priority i) i

@[simp]
theorem epoch_cons (priority : Nat → Nat) (i : Nat) (queue : List Nat) :
    epoch priority (i :: queue) =
      List.replicate (priority i) i ++ epoch priority queue :=
  List.flatMap_cons

namespace Sched

/-- The tasks of the queue have full counters, all others have none. -/
structure Waiting (priority : Nat → Nat) (count : Nat) (s : Sched)
    (queue : List Nat) : Prop where
  nrTasks : s.nrTasks = count + 1
  priorities : ∀ i, (s.task i).priority = priority i
  positive : ∀ i ∈ queue, 0 < priority i
  tasks : ∀ i ∈ queue, 1 ≤ i ∧ i < 1 + count
  full : ∀ i ∈ queue, (s.task i).counter = priority i
  spent : ∀ i, i < 1 + count → i ∉ queue → (s.task i).counter = 0
  sorted : queue.Pairwise (Before priority)

variable {priority : Nat → Nat} {count fuel : Nat} {s : Sched}
    {queue : List Nat}

/-- With tasks in the queue `schedule` switches to the first one. -/
theorem Waiting.dispatch {i : Nat}
    (waiting : Waiting priority count s (i :: queue)) :
    schedule (fuel + 1) s = some { s with current := i } := by
  have isTask := waiting.tasks i List.mem_cons_self
  have isFull := waiting.full i List.mem_cons_self
  have positive := waiting.positive i List.mem_cons_self
  have idleNotQueued : idle ∉ i :: queue := fun member =>
    absurd (waiting.tasks idle member).1 (by decide)
  have idleSpent := waiting.spent idle (by simp [idle]) idleNotQueued
  have selected : selectFrom s.task (s.nrTasks - 1) 1 idle = i := by
    rw [waiting.nrTasks, Nat.add_sub_cancel]
    refine selectFrom_eq isTask.1 isTask.2 (by omega) ?_
    intro j lower upper different
    by_cases queued : j ∈ queue
    · have before := (List.pairwise_cons.1 waiting.sorted).1 j queued
      rw [waiting.full j (List.mem_cons_of_mem _ queued), isFull]
      rcases before with less | ⟨equal, after⟩
      · exact Or.inl less
      · exact Or.inr ⟨equal.symm, after⟩
    · have zero := waiting.spent j upper (by simp [different, queued])
      left
      omega
  have notIdle : i ≠ idle := by
    simp only [idle]
    omega
  rw [schedule]
  simp only [selected, notIdle, if_false]

/-- With an empty queue it refills, and every counter it finds is zero. -/
theorem Waiting.refills (waiting : Waiting priority count s []) :
    schedule (fuel + 1) s = schedule fuel s.refill ∧
      s.refill.refills = s.refills ++ [List.replicate count 0] := by
  have spent : ∀ i, i < 1 + count → (s.task i).counter = 0 :=
    fun i bound => waiting.spent i bound List.not_mem_nil
  have selected : selectFrom s.task (s.nrTasks - 1) 1 idle = idle := by
    rw [waiting.nrTasks, Nat.add_sub_cancel]
    refine selectFrom_of_le fun j _ upper => ?_
    rw [spent j upper]
    exact Nat.zero_le _
  constructor
  · rw [schedule]
    simp only [selected, if_true]
  · simp only [refill, waiting.nrTasks, Nat.add_sub_cancel]
    congr 2
    refine List.eq_replicate_iff.2 ⟨by simp, fun counter found => ?_⟩
    obtain ⟨i, inRange, rfl⟩ := List.mem_map.1 found
    rw [List.mem_range'_1] at inRange
    exact spent i inRange.2

/-- After a refill every task waits. -/
theorem Waiting.refill (waiting : Waiting priority count s []) {order : List Nat}
    (members : ∀ i, i ∈ order ↔ 1 ≤ i ∧ i < 1 + count)
    (positive : ∀ i ∈ order, 0 < priority i)
    (sorted : order.Pairwise (Before priority)) :
    Waiting priority count s.refill order := by
  have tasks : ∀ i, s.refill.task i =
      if 1 ≤ i ∧ i < 1 + count then
        { s.task i with counter := (s.task i).priority }
      else s.task i := by
    intro i
    rw [Sched.refill]
    simp only [waiting.nrTasks, Nat.add_sub_cancel, refillFrom_apply]
  refine ⟨waiting.nrTasks, ?_, positive, fun i => (members i).1, ?_, ?_, sorted⟩
  · intro i
    rw [tasks]
    split <;> exact waiting.priorities i
  · intro i queued
    rw [tasks, if_pos ((members i).1 queued)]
    exact waiting.priorities i
  · intro i bound notQueued
    rw [tasks, if_neg ((members i).not.1 notQueued)]
    exact waiting.spent i bound List.not_mem_nil

/-! ## One tick -/

/-- The state in which the counter of the running task is used up. -/
def exhaust (s : Sched) : Sched :=
  { s with
    task := Function.update s.task s.current
      { s.task s.current with counter := 0 } }

/-- A task runs, the queue waits, and `agenda` lists the ticks until the refill. -/
structure Running (priority : Nat → Nat) (count : Nat) (s : Sched)
    (left : Nat) (queue : List Nat) (agenda : List Nat) : Prop where
  notIdle : s.current ≠ idle
  counter : (s.task s.current).counter = left + 1
  waiting : Waiting priority count s.exhaust queue
  agenda : agenda = List.replicate (left + 1) s.current ++ epoch priority queue

/-- The first entry of the agenda is the running task. -/
theorem Running.head {left : Nat} {agenda : List Nat}
    (running : Running priority count s left queue agenda) :
    agenda[0]? = some s.current := by
  rw [running.agenda, List.replicate_succ, List.cons_append]
  exact List.getElem?_cons_zero

/-- The task that `schedule` switches to runs first. -/
theorem Waiting.running {i : Nat}
    (waiting : Waiting priority count s (i :: queue)) :
    Running priority count { s with current := i } (priority i - 1) queue
      (epoch priority (i :: queue)) := by
  have positive := waiting.positive i List.mem_cons_self
  have isTask := waiting.tasks i List.mem_cons_self
  obtain ⟨before, sorted⟩ := List.pairwise_cons.1 waiting.sorted
  have notQueued : i ∉ queue := by
    intro queued
    have self := before i queued
    simp only [Before] at self
    omega
  have whole : priority i - 1 + 1 = priority i := by omega
  refine ⟨?_, ?_, ?_, ?_⟩
  · simp only [idle]
    omega
  · rw [whole]
    exact waiting.full i List.mem_cons_self
  · refine ⟨waiting.nrTasks, ?_, ?_, ?_, ?_, ?_, sorted⟩
    · intro j
      by_cases here : j = i
      · subst here
        simp only [exhaust, Function.update_self]
        exact waiting.priorities j
      · simp only [exhaust, Function.update_of_ne here]
        exact waiting.priorities j
    · exact fun j queued => waiting.positive j (List.mem_cons_of_mem _ queued)
    · exact fun j queued => waiting.tasks j (List.mem_cons_of_mem _ queued)
    · intro j queued
      have different : j ≠ i := fun same => notQueued (same ▸ queued)
      simp only [exhaust, Function.update_of_ne different]
      exact waiting.full j (List.mem_cons_of_mem _ queued)
    · intro j bound outside
      by_cases here : j = i
      · subst here
        simp only [exhaust, Function.update_self]
      · simp only [exhaust, Function.update_of_ne here]
        exact waiting.spent j bound (by simp [here, outside])
  · rw [whole, epoch_cons]

/-- The queue of a refill: every task, in the order of the stretches. -/
structure IsOrder (priority : Nat → Nat) (count : Nat) (order : List Nat) :
    Prop where
  perm : order.Perm (List.range' 1 count)
  sorted : order.Pairwise (Before priority)

/-- From an empty queue `schedule` refills once and starts the next epoch. -/
theorem Waiting.nextEpoch (waiting : Waiting priority count s [])
    {order : List Nat} (isOrder : IsOrder priority count order)
    (some_task : 0 < count)
    (positive : ∀ i, 1 ≤ i → i < 1 + count → 0 < priority i) :
    ∃ next left rest, schedule (fuel + 2) s = some next ∧
      Running priority count next left rest (epoch priority order) ∧
      next.refills = s.refills ++ [List.replicate count 0] := by
  have members : ∀ i, i ∈ order ↔ 1 ≤ i ∧ i < 1 + count := by
    intro i
    rw [isOrder.perm.mem_iff, List.mem_range'_1]
  have refilled := waiting.refill members
    (fun i queued =>
      positive i ((members i).1 queued).1 ((members i).1 queued).2)
    isOrder.sorted
  obtain ⟨again, found⟩ := @Waiting.refills priority count (fuel + 1) s waiting
  cases order with
  | nil =>
      have first := (members 1).2 (by omega)
      exact absurd first List.not_mem_nil
  | cons i rest =>
      refine ⟨{ s.refill with current := i }, _, rest, ?_, refilled.running, ?_⟩
      · rw [again, refilled.dispatch]
      · exact found

/-- One tick takes the first entry off the agenda; after the last one it refills. -/
theorem Running.tick {left : Nat} {agenda : List Nat}
    (running : Running priority count s left queue agenda)
    {order : List Nat} (isOrder : IsOrder priority count order)
    (some_task : 0 < count)
    (positive : ∀ i, 1 ≤ i → i < 1 + count → 0 < priority i) :
    ∃ next left' queue', doTimer (fuel + 2) s = some next ∧
      (agenda.tail = [] ∧
          Running priority count next left' queue' (epoch priority order) ∧
          next.refills = s.refills ++ [List.replicate count 0] ∨
        agenda.tail ≠ [] ∧
          Running priority count next left' queue' agenda.tail ∧
          next.refills = s.refills) := by
  have notZero : (s.task s.current).counter ≠ 0 := by
    rw [running.counter]
    exact Nat.succ_ne_zero left
  have tail : agenda.tail =
      List.replicate left s.current ++ epoch priority queue := by
    rw [running.agenda, List.replicate_succ, List.cons_append, List.tail_cons]
  have charged : doTimer (fuel + 2) s =
      if left = 0 then schedule (fuel + 2) s.exhaust
      else some { s with
        task := Function.update s.task s.current
          { s.task s.current with counter := left } } := by
    rw [doTimer, if_neg (not_or.2 ⟨running.notIdle, notZero⟩)]
    simp only [running.counter, Nat.add_sub_cancel, Function.update_self]
    rcases Nat.eq_zero_or_pos left with rfl | more
    · rfl
    · rw [if_neg more.ne', if_neg more.ne']
  rw [charged, tail]
  cases left with
  | succ left =>
      have more : List.replicate (left + 1) s.current ++
          epoch priority queue ≠ [] := by
        simp [List.replicate_succ]
      refine ⟨{ s with
        task := Function.update s.task s.current
          { s.task s.current with counter := left + 1 } }, left, queue, ?_, ?_⟩
      · rw [if_neg (Nat.succ_ne_zero left)]
      · refine Or.inr ⟨more, ⟨running.notIdle, ?_, ?_, rfl⟩, rfl⟩
        · simp only [Function.update_self]
        · have same : exhaust { s with
              task := Function.update s.task s.current
                { s.task s.current with counter := left + 1 } } = s.exhaust := by
            simp only [exhaust, Function.update_self, Function.update_idem]
          rw [same]
          exact running.waiting
  | zero =>
      simp only [List.replicate_zero, List.nil_append, if_true]
      cases queue with
      | nil =>
          obtain ⟨next, left', queue', switched, runs, found⟩ :=
            @Waiting.nextEpoch priority count fuel s.exhaust running.waiting
              order isOrder some_task positive
          exact ⟨next, left', queue', switched, Or.inl ⟨rfl, runs, found⟩⟩
      | cons i rest =>
          have stretch := running.waiting.positive i List.mem_cons_self
          have more : epoch priority (i :: rest) ≠ [] := by
            rw [epoch_cons]
            simp [stretch.ne']
          exact ⟨{ s.exhaust with current := i }, priority i - 1, rest,
            running.waiting.dispatch,
            Or.inr ⟨more, running.waiting.running, rfl⟩⟩

/-! ## Runs -/

/-- After `k` ticks the agenda is the epoch without its first `k % length` entries. -/
theorem ticks_running {order : List Nat} {start : Sched}
    (isOrder : IsOrder priority count order) (some_task : 0 < count)
    (positive : ∀ i, 1 ≤ i → i < 1 + count → 0 < priority i)
    {left : Nat} {queue : List Nat}
    (running : Running priority count start left queue (epoch priority order))
    (k : Nat) :
    ∃ now left' queue', ticks (fuel + 2) k start = some now ∧
      Running priority count now left' queue'
        ((epoch priority order).drop (k % (epoch priority order).length)) ∧
      now.refills = start.refills ++
        List.replicate (k / (epoch priority order).length)
          (List.replicate count 0) := by
  have nonempty : 0 < (epoch priority order).length := by
    rw [running.agenda]
    simp
  induction k with
  | zero =>
      refine ⟨start, left, queue, rfl, ?_, ?_⟩
      · rwa [Nat.zero_mod, List.drop_zero]
      · rw [Nat.zero_div, List.replicate_zero, List.append_nil]
  | succ k induction =>
      obtain ⟨now, left', queue', reached, runs, found⟩ := induction
      obtain ⟨next, left'', queue'', ticked, after⟩ :=
        @Running.tick priority count fuel now queue' left' _ runs order isOrder
          some_task positive
      have step : ticks (fuel + 2) (k + 1) start = some next := by
        rw [ticks, reached, Option.bind_some, ticked]
      have split := Nat.div_add_mod k (epoch priority order).length
      have inside := Nat.mod_lt k nonempty
      rw [List.tail_drop, ne_eq, List.drop_eq_nil_iff] at after
      refine ⟨next, left'', queue'', step, ?_⟩
      rcases after with ⟨last, runs, refilled⟩ | ⟨more, runs, kept⟩
      · obtain ⟨quotient, remainder⟩ :
            (k + 1) / (epoch priority order).length =
                k / (epoch priority order).length + 1 ∧
              (k + 1) % (epoch priority order).length = 0 := by
          refine (Nat.div_mod_unique nonempty).2 ⟨?_, nonempty⟩
          rw [Nat.mul_add, Nat.mul_one]
          omega
        constructor
        · rwa [remainder, List.drop_zero]
        · rw [refilled, found, quotient, List.replicate_succ',
            List.append_assoc]
      · obtain ⟨quotient, remainder⟩ :
            (k + 1) / (epoch priority order).length =
                k / (epoch priority order).length ∧
              (k + 1) % (epoch priority order).length =
                k % (epoch priority order).length + 1 := by
          refine (Nat.div_mod_unique nonempty).2 ⟨?_, Nat.not_le.1 more⟩
          omega
        constructor
        · rwa [remainder]
        · rw [kept, found, quotient]

end Sched

/-- The order of the stretches exists. -/
theorem exists_isOrder (priority : Nat → Nat) (count : Nat) :
    ∃ order, Sched.IsOrder priority count order := by
  let le : Nat → Nat → Bool := fun i j =>
    decide (priority j < priority i ∨ (priority i = priority j ∧ i ≤ j))
  have trans : ∀ a b c, le a b = true → le b c = true → le a c = true := by
    intro a b c first second
    simp only [le, decide_eq_true_eq] at first second ⊢
    omega
  have total : ∀ a b, (le a b || le b a) = true := by
    intro a b
    simp only [le, Bool.or_eq_true, decide_eq_true_eq]
    omega
  have perm := List.mergeSort_perm (List.range' 1 count) le
  refine ⟨(List.range' 1 count).mergeSort le, perm, ?_⟩
  have distinct : ((List.range' 1 count).mergeSort le).Pairwise (· ≠ ·) :=
    perm.nodup_iff.2 List.nodup_range'
  refine ((List.pairwise_mergeSort trans total _).and distinct).imp ?_
  rintro i j ⟨ordered, different⟩
  simp only [le, decide_eq_true_eq] at ordered
  simp only [Before]
  omega

/--
From cleared counters, the first `schedule` and any number of timer ticks run
through epochs: tick number `k` finds the task at position `k` of the repeated
epoch running, a refill happens at the first call and after each whole epoch
and nowhere else, and every refill finds all counters at zero.
-/
theorem scheduler_epochs {s : Sched} {fuel : Nat} (enough : 2 ≤ fuel)
    (two : 2 ≤ s.nrTasks)
    (cleared : ∀ i < s.nrTasks, (s.task i).counter = 0)
    (priorities : ∀ i, 1 ≤ i → i < s.nrTasks →
      1 ≤ (s.task i).priority ∧ (s.task i).priority ≤ 10)
    (start : s.refills = []) :
    ∃ order : List Nat,
      order.Perm (List.range' 1 (s.nrTasks - 1)) ∧
      order.Pairwise (fun i j =>
        (s.task j).priority < (s.task i).priority ∨
          ((s.task i).priority = (s.task j).priority ∧ i < j)) ∧
      ∀ k, ∃ now, (s.schedule fuel).bind (Sched.ticks fuel k) = some now ∧
        let epoch := order.flatMap fun i => List.replicate (s.task i).priority i
        epoch[k % epoch.length]? = some now.current ∧
        now.current ≠ idle ∧
        now.refills = List.replicate (1 + k / epoch.length)
          (List.replicate (s.nrTasks - 1) 0) := by
  obtain ⟨fuel, rfl⟩ : ∃ more, fuel = more + 2 := ⟨fuel - 2, by omega⟩
  obtain ⟨count, isCount⟩ : ∃ count, s.nrTasks = count + 1 :=
    ⟨s.nrTasks - 1, by omega⟩
  have count_eq : s.nrTasks - 1 = count := by omega
  obtain ⟨order, isOrder⟩ :=
    exists_isOrder (fun i => (s.task i).priority) count
  rw [count_eq]
  refine ⟨order, isOrder.perm, isOrder.sorted, fun k => ?_⟩
  have positive : ∀ i, 1 ≤ i → i < 1 + count → 0 < (s.task i).priority :=
    fun i lower upper => (priorities i lower (by omega)).1
  have waiting : Sched.Waiting (fun i => (s.task i).priority) count s [] :=
    { nrTasks := isCount
      priorities := fun _ => rfl
      positive := by simp
      tasks := by simp
      full := by simp
      spent := fun i bound _ => cleared i (by omega)
      sorted := List.Pairwise.nil }
  obtain ⟨first, left, queue, scheduled, running, found⟩ :=
    @Sched.Waiting.nextEpoch _ count fuel s waiting order isOrder (by omega)
      positive
  obtain ⟨now, left', queue', reached, runs, refilled⟩ :=
    @Sched.ticks_running _ count fuel order first isOrder (by omega) positive
      left queue running k
  refine ⟨now, ?_, ?_, runs.notIdle, ?_⟩
  · rw [scheduled, Option.bind_some, reached]
  · have head := runs.head
    rw [List.getElem?_drop, Nat.add_zero] at head
    exact head
  · rw [refilled, found, start, List.nil_append, ← List.replicate_one,
      List.replicate_append_replicate]
    rfl

/-- The priorities of the scheduler test, whose expected output is this epoch. -/
theorem scheduler_epochs_four_tasks :
    let s : Sched :=
      { task := fun i =>
          { state := 0
            counter := 0
            priority := [0, 7, 10, 4, 1].getD i 0
            pid := i
            mm := { pgd := 0, mmap := [] } }
        nrTasks := 5
        current := 0
        refills := [] }
    let epoch := List.replicate 10 2 ++ List.replicate 7 1 ++
      List.replicate 4 3 ++ [4]
    ∀ k, ∃ now, (s.schedule 2).bind (Sched.ticks 2 k) = some now ∧
      epoch[k % 22]? = some now.current ∧
      now.refills = List.replicate (1 + k / 22) [0, 0, 0, 0] := by
  intro s epoch k
  obtain ⟨order, perm, sorted, runs⟩ :=
    @scheduler_epochs s 2 (by decide) (by decide) (by decide) (by decide) rfl
  have known : order = [2, 1, 3, 4] := by
    refine (perm.trans (by decide : List.Perm [1, 2, 3, 4] [2, 1, 3, 4])).eq_of_pairwise
      ?_ sorted (by decide)
    intro i j _ _ before after
    omega
  subst known
  obtain ⟨now, reached, runs, -, refilled⟩ := runs k
  exact ⟨now, reached, runs, refilled⟩

end TinyRiscvOs.Proc
