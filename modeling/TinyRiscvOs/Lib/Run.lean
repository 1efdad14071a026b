/-!
# Finite runs of a labelled transition system

A run is a list of events together with the state it ends in, built from the
left.  The invariant rules are stated once here; a system only proves that one
step keeps its invariant.
-/

namespace TinyRiscvOs.Lib

universe u v w

variable {State : Type u} {Event : Type v}

/-- `Run step start events state`: the events lead from `start` to `state`. -/
inductive Run (step : State → Event → State → Prop) (start : State) :
    List Event → State → Prop where
  | nil : Run step start [] start
  | snoc {events : List Event} {state : State} {event : Event} {next : State}
      (run : Run step start events state) (taken : step state event next) :
      Run step start (events ++ [event]) next

/-- The steps of a system whose event meets a condition on the state before it. -/
def Guarded (step : State → Event → State → Prop)
    (guard : State → Event → Prop) (state : State) (event : Event)
    (next : State) : Prop :=
  step state event next ∧ guard state event

namespace Run

variable {step : State → Event → State → Prop} {start : State}
    {events : List Event} {state : State}

/-- An invariant that may speak about the events so far. -/
theorem invariant_history {inv : List Event → State → Prop}
    (run : Run step start events state) (base : inv [] start)
    (preserved : ∀ events state event next, inv events state →
      step state event next → inv (events ++ [event]) next) :
    inv events state := by
  induction run with
  | nil => exact base
  | snoc _ taken induction => exact preserved _ _ _ _ induction taken

/-- A state invariant. -/
theorem invariant {inv : State → Prop} (run : Run step start events state)
    (base : inv start)
    (preserved : ∀ state event next, inv state → step state event next →
      inv next) :
    inv state := by
  induction run with
  | nil => exact base
  | snoc _ taken induction => exact preserved _ _ _ induction taken

/-- Runs of a system are runs of every system that allows its steps. -/
theorem mono {other : State → Event → State → Prop}
    (run : Run step start events state)
    (weaker : ∀ state event next, step state event next →
      other state event next) :
    Run other start events state := by
  induction run with
  | nil => exact .nil
  | snoc _ taken induction => exact .snoc induction (weaker _ _ _ taken)

/-- Runs compose. -/
theorem append {more : List Event} {last : State}
    (first : Run step start events state) (second : Run step state more last) :
    Run step start (events ++ more) last := by
  induction second with
  | nil => simpa using first
  | snoc _ taken induction =>
      rw [← List.append_assoc]
      exact .snoc induction taken

/-- A run without events ends where it started. -/
theorem eq_of_nil (run : Run step start events state) (none : events = []) :
    state = start := by
  cases run with
  | nil => rfl
  | snoc _ _ => simp at none

/-- A run of one step. -/
theorem single {event : Event} {next : State}
    (taken : step start event next) : Run step start [event] next :=
  .snoc .nil taken

/-- The first step of a run split off. -/
theorem cons {event : Event} {next last : State} {rest : List Event}
    (taken : step start event next) (run : Run step next rest last) :
    Run step start (event :: rest) last :=
  (single taken).append run

/-- When runs are bounded, some run ends where no step is possible. -/
theorem exists_final {bound : Nat}
    (bounded : ∀ events state, Run step start events state →
      events.length ≤ bound) :
    ∃ events state, Run step start events state ∧
      ∀ event next, ¬ step state event next := by
  have longer : ∀ n,
      (∃ events state, Run step start events state ∧
        ∀ event next, ¬ step state event next) ∨
      ∃ events state, Run step start events state ∧ events.length = n := by
    intro n
    induction n with
    | zero => exact Or.inr ⟨[], start, .nil, rfl⟩
    | succ n induction =>
        rcases induction with final | ⟨events, state, run, rfl⟩
        · exact Or.inl final
        · rcases Classical.em (∃ event next, step state event next) with
            ⟨event, next, taken⟩ | none
          · exact Or.inr ⟨events ++ [event], next, .snoc run taken, by simp⟩
          · exact Or.inl ⟨events, state, run, fun event next taken =>
              none ⟨event, next, taken⟩⟩
  rcases longer (bound + 1) with final | ⟨events, state, run, length⟩
  · exact final
  · have short := bounded events state run
    omega

end Run

/-! ## Abstraction -/

/-- The steps of a system as an observer labels them. -/
def Observed {Label : Type w} (step : State → Event → State → Prop)
    (observe : State → Event → Label) (state : State) (label : Label)
    (next : State) : Prop :=
  ∃ event, step state event next ∧ observe state event = label

/-- When an abstraction makes every step one of another system, it makes runs runs. -/
theorem Run.abstracts {Abstract : Type w} {step : State → Event → State → Prop}
    {target : Abstract → Event → Abstract → Prop}
    {abstraction : State → Abstract} {inv : State → Prop} {start state : State}
    {events : List Event} (run : Run step start events state)
    (base : inv start)
    (preserved : ∀ state event next, inv state → step state event next →
      inv next)
    (simulates : ∀ state event next, inv state → step state event next →
      target (abstraction state) event (abstraction next)) :
    Run target (abstraction start) events (abstraction state) := by
  induction run with
  | nil => exact .nil
  | snoc run taken induction =>
      exact .snoc induction
        (simulates _ _ _ (run.invariant base preserved) taken)

/-! ## Executing a list of events -/

/-- Every event of the list is legal in the state the ones before it lead to. -/
def Legal (apply : State → Event → State) (legal : State → Event → Prop) :
    State → List Event → Prop
  | _, [] => True
  | state, event :: rest =>
      legal state event ∧ Legal apply legal (apply state event) rest

instance Legal.decidable {apply : State → Event → State}
    {legal : State → Event → Prop}
    [∀ state event, Decidable (legal state event)] :
    ∀ (state : State) (events : List Event),
      Decidable (Legal apply legal state events)
  | _, [] => isTrue trivial
  | state, event :: rest =>
      @instDecidableAnd (legal state event)
        (Legal apply legal (apply state event) rest) _
        (Legal.decidable (apply state event) rest)

/-- Executing legal events is a run. -/
theorem Run.ofLegal {apply : State → Event → State}
    {legal : State → Event → Prop} {step : State → Event → State → Prop}
    (sound : ∀ state event, legal state event →
      step state event (apply state event)) :
    ∀ {start : State} {events : List Event}, Legal apply legal start events →
      Run step start events (events.foldl apply start)
  | _, [], _ => .nil
  | start, _ :: _, legality =>
      .cons (sound start _ legality.1) (Run.ofLegal sound legality.2)

end TinyRiscvOs.Lib
