import Mathlib.Logic.Function.Basic
import TinyRiscvOs.Lib.Run

/-!
# Tasks with memories of their own

Every task has a memory, a partial function of the address.  A store changes
one byte of one task, a page that comes in fills addresses of one task, and a
fork gives a new task the memory of another one as it is at this moment.  What
a task loads is what its own memory holds.
-/

namespace TinyRiscvOs.Lib

universe u v w

variable {Task : Type u} {Address : Type v} {Value : Type w}

/-- For each task, the value at each of its addresses. -/
abbrev Memories (Task : Type u) (Address : Type v) (Value : Type w) :=
  Task → Address → Option Value

/-- What happens to the memories. -/
inductive MemoryEvent (Task : Type u) (Address : Type v) (Value : Type w) where
  | load (id : Task) (addr : Address) (value : Value)
  | store (id : Task) (addr : Address) (value : Value)
  /-- The addresses where `contents` has a value get it. -/
  | fill (id : Task) (contents : Address → Option Value)
  /-- Something that no task can observe. -/
  | silent
  | fork (parent child : Task)

namespace Memories

variable [DecidableEq Task] [DecidableEq Address]

/-- The memories after an event. -/
def after (memories : Memories Task Address Value) :
    MemoryEvent Task Address Value → Memories Task Address Value
  | .load _ _ _ => memories
  | .store id addr value =>
      Function.update memories id
        (Function.update (memories id) addr (some value))
  | .fill id contents =>
      Function.update memories id fun addr =>
        (contents addr).or (memories id addr)
  | .silent => memories
  | .fork parent child => Function.update memories child (memories parent)

section

variable (memories : Memories Task Address Value) {id other : Task}
    {addr place : Address} {value : Value}
    {contents : Address → Option Value} {parent child : Task}

theorem after_store_self :
    memories.after (.store id addr value) id addr = some value := by
  rw [after, Function.update_self, Function.update_self]

theorem after_store_of_not (different : ¬ (other = id ∧ place = addr)) :
    memories.after (.store other place value) id addr = memories id addr := by
  by_cases sameTask : id = other
  · subst sameTask
    rw [after, Function.update_self,
      Function.update_of_ne fun same => different ⟨rfl, same.symm⟩]
  · rw [after, Function.update_of_ne sameTask]

theorem after_fill_self :
    memories.after (.fill id contents) id addr =
      (contents addr).or (memories id addr) := by
  rw [after, Function.update_self]

theorem after_fill_of_ne (different : id ≠ other) :
    memories.after (.fill other contents) id addr = memories id addr := by
  rw [after, Function.update_of_ne different]

theorem after_fork_child :
    memories.after (.fork parent child) child = memories parent := by
  rw [after, Function.update_self]

theorem after_fork_of_ne (different : id ≠ child) :
    memories.after (.fork parent child) id = memories id := by
  rw [after, Function.update_of_ne different]

end

/-- A load finds its value, a store has a place to go, and a child starts with nothing. -/
def Allows (memories : Memories Task Address Value) :
    MemoryEvent Task Address Value → Prop
  | .load id addr value => memories id addr = some value
  | .store id addr _ => memories id addr ≠ none
  | .fill _ _ => True
  | .silent => True
  | .fork _ child => memories child = fun _ => none

/-- The steps of the memories. -/
def Step (memories : Memories Task Address Value)
    (event : MemoryEvent Task Address Value)
    (next : Memories Task Address Value) : Prop :=
  memories.Allows event ∧ next = memories.after event

/-- A page comes in only where nothing is yet. -/
def FillsAbsent (memories : Memories Task Address Value) :
    MemoryEvent Task Address Value → Prop
  | .fill id contents =>
      ∀ addr, contents addr ≠ none → memories id addr = none
  | _ => True

/-- The event stores to the address. -/
def StoresTo (id : Task) (addr : Address) :
    MemoryEvent Task Address Value → Prop
  | .store other place _ => other = id ∧ place = addr
  | _ => False

variable {memories next : Memories Task Address Value}
    {event : MemoryEvent Task Address Value}

/-- An address with a value keeps one. -/
theorem Step.present (taken : Step memories event next) {id : Task}
    {addr : Address} (present : memories id addr ≠ none) :
    next id addr ≠ none := by
  obtain ⟨allowed, rfl⟩ := taken
  cases event with
  | load | silent => exact present
  | store other place value =>
      by_cases here : other = id ∧ place = addr
      · obtain ⟨rfl, rfl⟩ := here
        rw [after_store_self]
        exact Option.some_ne_none value
      · rwa [after_store_of_not memories here]
  | fill other contents =>
      by_cases here : id = other
      · subst here
        rw [after_fill_self]
        exact fun empty => present (Option.or_eq_none_iff.1 empty).2
      · rwa [after_fill_of_ne memories here]
  | fork parent child =>
      have notChild : id ≠ child := by
        rintro rfl
        exact present (congrFun allowed addr)
      rwa [after_fork_of_ne memories notChild]

/-- Only a store of the task itself changes a value. -/
theorem Step.unchanged (taken : Guarded Step FillsAbsent memories event next)
    {id : Task} {addr : Address} {value : Value}
    (held : memories id addr = some value)
    (notStored : ¬ StoresTo id addr event) : next id addr = some value := by
  obtain ⟨⟨allowed, rfl⟩, absent⟩ := taken
  have present : memories id addr ≠ none := held ▸ Option.some_ne_none value
  cases event with
  | load | silent => exact held
  | store other place stored =>
      rw [after_store_of_not memories notStored]
      exact held
  | fill other contents =>
      by_cases here : id = other
      · subst here
        have empty : contents addr = none := by
          by_contra filled
          exact present (absent addr filled)
        rw [after_fill_self, empty]
        exact held
      · rw [after_fill_of_ne memories here]
        exact held
  | fork parent child =>
      have notChild : id ≠ child := by
        rintro rfl
        exact present (congrFun allowed addr)
      rw [after_fork_of_ne memories notChild]
      exact held

/-- A value stays until the task stores to the address, whatever the other tasks do. -/
theorem run_unchanged {events : List (MemoryEvent Task Address Value)}
    (run : Run (Guarded Step FillsAbsent) memories events next) {id : Task}
    {addr : Address} {value : Value} (held : memories id addr = some value)
    (notStored : ∀ event ∈ events, ¬ StoresTo id addr event) :
    next id addr = some value := by
  induction run with
  | nil => exact held
  | snoc run taken induction =>
      rw [List.forall_mem_append, List.forall_mem_singleton] at notStored
      exact Step.unchanged taken (induction notStored.1) notStored.2

end Memories

/-! ## The last store -/

namespace Memories

variable [DecidableEq Task] [DecidableEq Address]

/-- Stores and forks are remembered, pages that come in are not. -/
def remember (stored : Memories Task Address Value) :
    MemoryEvent Task Address Value → Memories Task Address Value
  | .fill _ _ => stored
  | event => stored.after event

/-- The last value that a task, or its parent before the fork, stored at each address. -/
def lastStored (events : List (MemoryEvent Task Address Value)) :
    Memories Task Address Value :=
  events.foldl remember fun _ _ => none

theorem lastStored_snoc (events : List (MemoryEvent Task Address Value))
    (event : MemoryEvent Task Address Value) :
    lastStored (events ++ [event]) = (lastStored events).remember event := by
  rw [lastStored, List.foldl_append]
  rfl

/-- Where something was stored the memory has a value. -/
theorem run_stored_present {events : List (MemoryEvent Task Address Value)}
    {start memories : Memories Task Address Value}
    (run : Run Step start events memories) {id : Task} {addr : Address}
    (stored : lastStored events id addr ≠ none) : memories id addr ≠ none := by
  induction run generalizing id with
  | nil => exact absurd rfl stored
  | @snoc events middle event next run taken induction =>
      rw [lastStored_snoc] at stored
      have kept (before : lastStored events id addr ≠ none) :
          next id addr ≠ none := taken.present (induction before)
      obtain ⟨_, rfl⟩ := taken
      cases event with
      | load | silent | fill => exact kept stored
      | store other place value =>
          replace stored : (lastStored events).after
            (.store other place value) id addr ≠ none := stored
          by_cases here : other = id ∧ place = addr
          · obtain ⟨rfl, rfl⟩ := here
            rw [after_store_self]
            exact Option.some_ne_none value
          · rw [after_store_of_not _ here] at stored
            exact kept stored
      | fork parent child =>
          replace stored : (lastStored events).after (.fork parent child) id
            addr ≠ none := stored
          by_cases isChild : id = child
          · subst isChild
            rw [after_fork_child] at stored ⊢
            exact induction stored
          · rw [after_fork_of_ne _ isChild] at stored
            exact kept stored

/--
`origin id addr value`: what comes in at this address is the value.  When this
holds of every fill, and a child has the origins of its parent, a memory holds
the last value stored, or the one that came in.
-/
theorem Step.last_or_origin {stored memories next : Memories Task Address Value}
    {event : MemoryEvent Task Address Value}
    {origin origin' : Task → Address → Value → Prop}
    (taken : Guarded Step FillsAbsent memories event next)
    (present : ∀ id addr, stored id addr ≠ none → memories id addr ≠ none)
    (before : ∀ id addr value first, origin id addr first →
      memories id addr = some value → value = (stored id addr).getD first)
    (fills : ∀ id contents addr value first, event = .fill id contents →
      origin' id addr first → contents addr = some value → value = first)
    (forks : ∀ parent child addr first, event = .fork parent child →
      origin' child addr first → origin parent addr first)
    (others : ∀ id addr first, (∀ parent, event ≠ .fork parent id) →
      origin' id addr first → origin id addr first)
    {id : Task} {addr : Address} {value first : Value}
    (isOrigin : origin' id addr first) (held : next id addr = some value) :
    value = (stored.remember event id addr).getD first := by
  obtain ⟨⟨allowed, rfl⟩, absent⟩ := taken
  cases event with
  | load | silent =>
      exact before id addr value first (others id addr first nofun isOrigin) held
  | store other place last =>
      have old := others id addr first nofun isOrigin
      rw [remember]
      · by_cases here : other = id ∧ place = addr
        · obtain ⟨rfl, rfl⟩ := here
          rw [after_store_self] at held ⊢
          exact (Option.some_inj.1 held).symm
        · rw [after_store_of_not _ here] at held ⊢
          exact before id addr value first old held
      · nofun
  | fill other contents =>
      have old := others id addr first nofun isOrigin
      by_cases here : id = other
      · subst here
        rw [after_fill_self] at held
        cases filled : contents addr with
        | none =>
            rw [filled, Option.none_or] at held
            exact before id addr value first old held
        | some brought =>
            rw [filled, Option.some_or, Option.some_inj] at held
            have empty := absent addr (filled ▸ Option.some_ne_none brought)
            have unstored : stored id addr = none :=
              by_contra fun stored => present id addr stored empty
            rw [remember, unstored, ← held]
            exact fills id contents addr brought first rfl isOrigin filled
      · rw [after_fill_of_ne _ here] at held
        exact before id addr value first old held
  | fork parent child =>
      rw [remember]
      · by_cases isChild : id = child
        · subst isChild
          rw [after_fork_child] at held ⊢
          exact before parent addr value first
            (forks parent id addr first rfl isOrigin) held
        · rw [after_fork_of_ne _ isChild] at held ⊢
          have old := others id addr first
            (fun other same => isChild (MemoryEvent.fork.inj same).2.symm)
            isOrigin
          exact before id addr value first old held
      · nofun

end Memories

end TinyRiscvOs.Lib
