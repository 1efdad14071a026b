/-!
# Calls that are answered

A machine answers calls one after the other.  When an abstraction carries every
call over to a call of a second machine, the answers to all of a sequence of
calls are those of the second machine.  So they are when a relation that every
call keeps takes the place of the abstraction.
-/

namespace TinyRiscvOs.Lib

universe u v w

variable {State : Type u} {Call : Type v} {Answer : Type w}

/-- Every call meets a condition on the state that it finds. -/
def AllLegal (exec : State → Call → Option (Answer × State))
    (legal : State → Call → Prop) : State → List Call → Prop
  | _, [] => True
  | state, call :: rest =>
      legal state call ∧
        ∀ result, exec state call = some result →
          AllLegal exec legal result.2 rest

section Refinement

universe u' v' w'

variable {Abstract : Type u'} {Op : Type v'} {Reply : Type w'}
    {exec : State → Call → Option (Answer × State)}
    {spec : Abstract → Op → Option (Reply × Abstract)}
    {abstraction : State → Abstract} {meaning : Call → Op}
    {answer : Reply → Answer} {inv : State → Prop}
    {legal : Abstract → Op → Prop}

/-- A call has the answer of its meaning, and keeps the invariant. -/
structure Refined (exec : State → Call → Option (Answer × State))
    (spec : Abstract → Op → Option (Reply × Abstract))
    (abstraction : State → Abstract) (meaning : Call → Op)
    (answer : Reply → Answer) (inv : State → Prop) (state : State)
    (call : Call) : Prop where
  answered :
    (exec state call).map (fun result => (result.1, abstraction result.2)) =
      (spec (abstraction state) (meaning call)).map fun result =>
        (answer result.1, result.2)
  keeps : ∀ result, exec state call = some result → inv result.2

end Refinement

section Simulation

universe u'

variable {Abstract : Type u'} {exec : State → Call → Option (Answer × State)}
    {spec : Abstract → Call → Option (Answer × Abstract)}
    {related : State → Abstract → Prop} {legal : Abstract → Call → Prop}

/-- Related states have the same answer and get to related states. -/
structure Simulated (exec : State → Call → Option (Answer × State))
    (spec : Abstract → Call → Option (Answer × Abstract))
    (related : State → Abstract → Prop) (state : State) (abstract : Abstract)
    (call : Call) : Prop where
  answered : (exec state call).map Prod.fst = (spec abstract call).map Prod.fst
  keeps : ∀ result meant, exec state call = some result →
    spec abstract call = some meant → related result.2 meant.2

theorem Simulated.of_some {state : State} {abstract : Abstract} {call : Call}
    {answer : Answer} {next : State} {meant : Abstract}
    (ran : exec state call = some (answer, next))
    (shown : spec abstract call = some (answer, meant))
    (relates : related next meant) :
    Simulated exec spec related state abstract call where
  answered := by rw [ran, shown]; rfl
  keeps result other here there := by
    obtain rfl := Option.some_inj.1 (ran.symm.trans here)
    obtain rfl := Option.some_inj.1 (shown.symm.trans there)
    exact relates

end Simulation

end TinyRiscvOs.Lib
