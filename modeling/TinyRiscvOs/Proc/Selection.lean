import TinyRiscvOs.Proc.Sched

/-!
# The choice of `schedule`

The scan takes over a task only for a strictly larger counter, so it ends at
the first of the largest ones, or at `idle` when no task has time left.  The
refill then gives every task its priority, and a second scan cannot end at
`idle` when a priority is positive.
-/

namespace TinyRiscvOs.Proc

/-- Of the tasks other than `idle`, the first one with the largest score. -/
structure FirstMax (score : Nat → Nat) (nrTasks best : Nat) : Prop where
  lower : 1 ≤ best
  upper : best < nrTasks
  largest : ∀ i, 1 ≤ i → i < nrTasks → score i ≤ score best
  first : ∀ i, 1 ≤ i → i < nrTasks → score i = score best → best ≤ i

theorem FirstMax.congr {score other : Nat → Nat} {nrTasks best : Nat}
    (isFirst : FirstMax score nrTasks best)
    (same : ∀ i, 1 ≤ i → i < nrTasks → score i = other i) :
    FirstMax other nrTasks best where
  lower := isFirst.lower
  upper := isFirst.upper
  largest i low high := by
    rw [← same i low high, ← same best isFirst.lower isFirst.upper]
    exact isFirst.largest i low high
  first i low high equal := by
    rw [← same i low high, ← same best isFirst.lower isFirst.upper] at equal
    exact isFirst.first i low high equal

namespace Sched

/-- The scan keeps its candidate or ends at the first of the larger counters. -/
theorem selectFrom_cases (task : Nat → TaskStruct) (count i next : Nat) :
    (selectFrom task count i next = next ∧
      ∀ j, i ≤ j → j < i + count → (task j).counter ≤ (task next).counter) ∨
    ∃ best, selectFrom task count i next = best ∧ i ≤ best ∧
      best < i + count ∧ (task next).counter < (task best).counter ∧
      ∀ j, i ≤ j → j < i + count →
        (task j).counter ≤ (task best).counter ∧
          ((task j).counter = (task best).counter → best ≤ j) := by
  induction count generalizing i next with
  | zero =>
      left
      refine ⟨rfl, fun j low high => ?_⟩
      omega
  | succ count induction =>
      rw [selectFrom]
      split
      · next kept =>
          rcases induction (i + 1) next with ⟨stays, small⟩ |
            ⟨best, found, low, high, more, top⟩
          · left
            refine ⟨stays, fun j above below => ?_⟩
            by_cases here : j = i
            · rw [here]
              exact kept
            · exact small j (by omega) (by omega)
          · right
            refine ⟨best, found, by omega, by omega, more,
              fun j above below => ?_⟩
            by_cases here : j = i
            · subst here
              exact ⟨by omega, fun equal => by omega⟩
            · exact top j (by omega) (by omega)
      · next taken =>
          have larger := Nat.not_le.1 taken
          right
          rcases induction (i + 1) i with ⟨stays, small⟩ |
            ⟨best, found, low, high, more, top⟩
          · refine ⟨i, stays, Nat.le_refl i, by omega, larger,
              fun j above below => ?_⟩
            by_cases here : j = i
            · subst here
              exact ⟨Nat.le_refl _, fun _ => Nat.le_refl _⟩
            · exact ⟨small j (by omega) (by omega), fun _ => above⟩
          · refine ⟨best, found, by omega, by omega, by omega,
              fun j above below => ?_⟩
            by_cases here : j = i
            · subst here
              exact ⟨by omega, fun equal => by omega⟩
            · exact top j (by omega) (by omega)

variable {s : Sched} {fuel : Nat}

/-- With time left somewhere one scan is enough, and it changes no task. -/
theorem schedule_of_counter (idleSpent : (s.task idle).counter = 0)
    (left : ∃ i, 1 ≤ i ∧ i < s.nrTasks ∧ 0 < (s.task i).counter) :
    ∃ next, s.schedule (fuel + 1) = some { s with current := next } ∧
      FirstMax (fun i => (s.task i).counter) s.nrTasks next := by
  obtain ⟨i, low, high, positive⟩ := left
  rw [schedule]
  rcases selectFrom_cases s.task (s.nrTasks - 1) 1 idle with ⟨-, small⟩ |
    ⟨best, found, lower, upper, -, top⟩
  · have none := small i low (by omega)
    omega
  · have notIdle : best ≠ idle := by
      simp only [idle]
      omega
    refine ⟨best, ?_, lower, by omega, fun j above below => ?_,
      fun j above below => ?_⟩
    · simp only [found, notIdle, if_false]
    · exact (top j above (by omega)).1
    · exact (top j above (by omega)).2

/-- With no time left the counters are refilled. -/
theorem schedule_of_spent
    (spent : ∀ i, 1 ≤ i → i < s.nrTasks → (s.task i).counter = 0) :
    s.schedule (fuel + 1) = s.refill.schedule fuel := by
  have selected : selectFrom s.task (s.nrTasks - 1) 1 idle = idle := by
    refine selectFrom_of_le fun j low high => ?_
    rw [spent j low (by omega)]
    exact Nat.zero_le _
  rw [schedule]
  simp only [selected, if_true]

theorem refill_task (s : Sched) (i : Nat) :
    s.refill.task i =
      if 1 ≤ i ∧ i < s.nrTasks then
        { s.task i with counter := (s.task i).priority }
      else s.task i := by
  rw [refill]
  dsimp only
  rw [refillFrom_apply]
  exact if_congr (by omega) rfl rfl

end Sched

/--
`schedule` ends after at most two scans.  It switches to the first task with
the largest counter and changes none, or, when no task has time left, gives
every task its priority and switches to the first one with the largest.
-/
theorem schedule_selects {s : Sched} (fuel : Nat)
    (idleSpent : (s.task idle).counter = 0)
    (prior : ∃ i, 1 ≤ i ∧ i < s.nrTasks ∧ 0 < (s.task i).priority) :
    ∃ now, s.schedule (fuel + 2) = some now ∧ now.nrTasks = s.nrTasks ∧
      ((∃ i, 1 ≤ i ∧ i < s.nrTasks ∧ 0 < (s.task i).counter) →
        now.task = s.task ∧
          FirstMax (fun i => (s.task i).counter) s.nrTasks now.current) ∧
      ((∀ i, 1 ≤ i → i < s.nrTasks → (s.task i).counter = 0) →
        (∀ i, now.task i =
          if 1 ≤ i ∧ i < s.nrTasks then
            { s.task i with counter := (s.task i).priority }
          else s.task i) ∧
          FirstMax (fun i => (s.task i).priority) s.nrTasks now.current) := by
  by_cases left : ∃ i, 1 ≤ i ∧ i < s.nrTasks ∧ 0 < (s.task i).counter
  · obtain ⟨next, switched, isFirst⟩ :=
      @Sched.schedule_of_counter s (fuel + 1) idleSpent left
    refine ⟨_, switched, rfl, fun _ => ⟨rfl, isFirst⟩, fun spent => ?_⟩
    obtain ⟨i, low, high, positive⟩ := left
    exact absurd (spent i low high) positive.ne'
  · have spent : ∀ i, 1 ≤ i → i < s.nrTasks → (s.task i).counter = 0 := by
      intro i low high
      by_contra positive
      exact left ⟨i, low, high, Nat.pos_of_ne_zero positive⟩
    have full : ∀ i, 1 ≤ i → i < s.nrTasks →
        (s.refill.task i).counter = (s.task i).priority := by
      intro i low high
      rw [Sched.refill_task, if_pos ⟨low, high⟩]
    have idleStays : (s.refill.task idle).counter = 0 := by
      rw [Sched.refill_task, if_neg (by simp only [idle]; omega)]
      exact idleSpent
    obtain ⟨i, low, high, positive⟩ := prior
    obtain ⟨next, switched, isFirst⟩ :=
      @Sched.schedule_of_counter s.refill fuel idleStays
        ⟨i, low, high, by rw [full i low high]; exact positive⟩
    refine ⟨_, (Sched.schedule_of_spent spent).trans switched, rfl,
      fun some => absurd some left, fun _ => ⟨s.refill_task, ?_⟩⟩
    exact isFirst.congr full

/-- Two tasks without time left and with the same priority. -/
def tiedTasks : Sched where
  task i :=
    { state := 0
      counter := 0
      priority := if i = 0 then 0 else 3
      pid := i
      mm := { pgd := 0, mmap := [] } }
  nrTasks := 3
  current := 0
  refills := []

/-- Of two equal tasks the first one is taken. -/
theorem schedule_selects_tied :
    ∃ now, tiedTasks.schedule (0 + 2) = some now ∧
      now.nrTasks = tiedTasks.nrTasks ∧
      ((∃ i, 1 ≤ i ∧ i < tiedTasks.nrTasks ∧
          0 < (tiedTasks.task i).counter) →
        now.task = tiedTasks.task ∧
          FirstMax (fun i => (tiedTasks.task i).counter) tiedTasks.nrTasks
            now.current) ∧
      ((∀ i, 1 ≤ i → i < tiedTasks.nrTasks →
          (tiedTasks.task i).counter = 0) →
        (∀ i, now.task i =
          if 1 ≤ i ∧ i < tiedTasks.nrTasks then
            { tiedTasks.task i with counter := (tiedTasks.task i).priority }
          else tiedTasks.task i) ∧
          FirstMax (fun i => (tiedTasks.task i).priority) tiedTasks.nrTasks
            now.current) :=
  schedule_selects 0 rfl ⟨1, by decide, by decide, by decide⟩

end TinyRiscvOs.Proc
