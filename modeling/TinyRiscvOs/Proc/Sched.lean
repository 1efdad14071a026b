import TinyRiscvOs.Vm.Process

/-!
# The scheduler of `proc.c`

`do_timer` charges the running task and `schedule` selects the next one.  A
task is its index in `task[]`; `idle` is index `0`.  The `while (true)` of
`schedule` is a recursion on fuel, and two rounds of it are enough when
the priorities are positive.
-/

namespace TinyRiscvOs.Proc

/-- The fields of a `task_struct` outside its saved context. -/
structure TaskStruct where
  state : Nat
  counter : Nat
  priority : Nat
  pid : Nat
  mm : Vm.Task
deriving DecidableEq, Repr

/-- The globals of the scheduler, and the counters that each refill found. -/
structure Sched where
  task : Nat → TaskStruct
  nrTasks : Nat
  current : Nat
  refills : List (List Nat)

/-- `idle`, which is `task[0]`. -/
abbrev idle : Nat := 0

namespace Sched

/-- The selection loop of `schedule`, `count` tasks from index `i` on. -/
def selectFrom (task : Nat → TaskStruct) : Nat → Nat → Nat → Nat
  | 0, _, next => next
  | count + 1, i, next =>
      if (task i).counter ≤ (task next).counter then
        selectFrom task count (i + 1) next
      else selectFrom task count (i + 1) i

/-- The refill loop of `schedule`, `count` tasks from index `i` on. -/
def refillFrom : Nat → Nat → (Nat → TaskStruct) → (Nat → TaskStruct)
  | 0, _, task => task
  | count + 1, i, task =>
      refillFrom count (i + 1)
        (Function.update task i { task i with counter := (task i).priority })

/-- The branch of `schedule` for the case that only `idle` was selected. -/
def refill (s : Sched) : Sched :=
  { s with
    task := refillFrom (s.nrTasks - 1) 1 s.task
    refills := s.refills ++
      [(List.range' 1 (s.nrTasks - 1)).map fun i => (s.task i).counter] }

/-- `schedule`; `none` when the fuel ends before the loop does. -/
def schedule : Nat → Sched → Option Sched
  | 0, _ => none
  | fuel + 1, s =>
      let next := selectFrom s.task (s.nrTasks - 1) 1 idle
      if next = idle then schedule fuel s.refill
      else some { s with current := next }

/-- `do_timer`. -/
def doTimer (fuel : Nat) (s : Sched) : Option Sched :=
  if s.current = idle ∨ (s.task s.current).counter = 0 then s.schedule fuel
  else
    let task := Function.update s.task s.current
      { s.task s.current with counter := (s.task s.current).counter - 1 }
    if (task s.current).counter = 0 then schedule fuel { s with task }
    else some { s with task }

/-- A number of timer ticks. -/
def ticks (fuel : Nat) : Nat → Sched → Option Sched
  | 0, s => some s
  | count + 1, s => (ticks fuel count s).bind (doTimer fuel)

/-! ## The two loops -/

theorem selectFrom_of_le {task : Nat → TaskStruct} {count i next : Nat}
    (le : ∀ j, i ≤ j → j < i + count →
      (task j).counter ≤ (task next).counter) :
    selectFrom task count i next = next := by
  induction count generalizing i with
  | zero => rfl
  | succ count induction =>
      rw [selectFrom, if_pos (le i (Nat.le_refl i) (by omega))]
      exact induction fun j lower upper => le j (by omega) (by omega)

/-- The loop ends at the first task with the largest counter. -/
theorem selectFrom_eq {task : Nat → TaskStruct} {count i next best : Nat}
    (lower : i ≤ best) (upper : best < i + count)
    (more : (task next).counter < (task best).counter)
    (first : ∀ j, i ≤ j → j < i + count → j ≠ best →
      (task j).counter < (task best).counter ∨
        ((task j).counter = (task best).counter ∧ best < j)) :
    selectFrom task count i next = best := by
  induction count generalizing i next with
  | zero => omega
  | succ count induction =>
      rw [selectFrom]
      by_cases here : i = best
      · subst here
        rw [if_neg (Nat.not_le.2 more)]
        refine selectFrom_of_le fun j above below => ?_
        rcases first j (by omega) (by omega) (by omega) with less | ⟨equal, -⟩
        · exact Nat.le_of_lt less
        · exact Nat.le_of_eq equal
      · have rest : ∀ j, i + 1 ≤ j → j < i + 1 + count → j ≠ best →
            (task j).counter < (task best).counter ∨
              ((task j).counter = (task best).counter ∧ best < j) :=
          fun j above below => first j (by omega) (by omega)
        split
        · exact induction (by omega) (by omega) more rest
        · refine induction (by omega) (by omega) ?_ rest
          rcases first i (Nat.le_refl i) (by omega) here with less | ⟨-, after⟩
          · exact less
          · omega

theorem refillFrom_apply (count i : Nat) (task : Nat → TaskStruct) (j : Nat) :
    refillFrom count i task j =
      if i ≤ j ∧ j < i + count then { task j with counter := (task j).priority }
      else task j := by
  induction count generalizing i task with
  | zero =>
      rw [refillFrom, if_neg]
      omega
  | succ count induction =>
      rw [refillFrom, induction]
      by_cases here : j = i
      · subst here
        rw [if_neg (by omega), if_pos (by omega), Function.update_self]
      · rw [Function.update_of_ne here]
        exact if_congr (by omega) rfl rfl

end Sched

end TinyRiscvOs.Proc
