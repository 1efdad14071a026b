import Mathlib.Data.Finset.Card

/-!
# Slots that share counted frames

A slot holds at most one frame and may be writable.  A frame held by several
slots has to be counted at least that often, and no slot that holds it may be
writable.  The module shows that this survives the moves of copy-on-write:
giving a slot a fresh frame, with or without releasing the one it held, and
letting a further slot share a frame that has a reference to spare.
-/

namespace TinyRiscvOs.Lib

universe u v

variable {Slot : Type u} {Frame : Type v}

/-- Counts bound the holders from above, and a writable holder is the only one. -/
structure Sharing (holds : Slot → Option Frame) (writable : Slot → Prop)
    (count : Frame → Nat) : Prop where
  counted : ∀ frame (holders : Finset Slot),
    (∀ slot ∈ holders, holds slot = some frame) → holders.card ≤ count frame
  exclusive : ∀ slot other frame, writable slot → holds slot = some frame →
    holds other = some frame → other = slot

/-- One reference to the frame is not taken by any slot but the given one. -/
def Spare (holds : Slot → Option Frame) (count : Frame → Nat) (slot : Slot)
    (frame : Frame) : Prop :=
  ∀ holders : Finset Slot, (∀ other ∈ holders, holds other = some frame) →
    slot ∉ holders → holders.card + 1 ≤ count frame

namespace Sharing

variable {holds holds' : Slot → Option Frame} {writable writable' : Slot → Prop}
    {count count' : Frame → Nat}

/-- A held frame is counted. -/
theorem count_pos (sharing : Sharing holds writable count) {slot : Slot}
    {frame : Frame} (held : holds slot = some frame) : 0 < count frame := by
  have bound := sharing.counted frame {slot} fun other member => by
    rw [Finset.mem_singleton.1 member]
    exact held
  rw [Finset.card_singleton] at bound
  exact bound

/-- Counts may grow and writability may be lost. -/
theorem mono (sharing : Sharing holds writable count)
    (counts : ∀ frame, count frame ≤ count' frame)
    (writes : ∀ slot, writable' slot → writable slot) :
    Sharing holds writable' count' := by
  constructor
  · intro frame holders held
    exact (sharing.counted frame holders held).trans (counts frame)
  · intro slot other frame canWrite
    exact sharing.exclusive slot other frame (writes slot canWrite)

/-- Nothing that matters changes. -/
theorem congr (sharing : Sharing holds writable count)
    (sameHolds : ∀ slot, holds' slot = holds slot)
    (writes : ∀ slot, writable' slot → writable slot)
    (counts : ∀ frame slot, holds slot = some frame →
      count frame ≤ count' frame) :
    Sharing holds' writable' count' := by
  constructor
  · intro frame holders held
    rcases holders.eq_empty_or_nonempty with rfl | ⟨slot, member⟩
    · simp
    · have bound := sharing.counted frame holders fun slot member =>
        (sameHolds slot).symm.trans (held slot member)
      have grown := counts frame slot
        ((sameHolds slot).symm.trans (held slot member))
      exact bound.trans grown
  · intro slot other frame canWrite held heldToo
    rw [sameHolds] at held heldToo
    exact sharing.exclusive slot other frame (writes slot canWrite) held heldToo

/-- A slot moves to a frame nobody held; its old frame may lose a reference. -/
theorem move (sharing : Sharing holds writable count) {slot : Slot}
    {fresh : Frame} (isFresh : ∀ other, holds other ≠ some fresh)
    (counted : 1 ≤ count' fresh) (moved : holds' slot = some fresh)
    (others : ∀ other, other ≠ slot → holds' other = holds other)
    (writes : ∀ other, other ≠ slot → writable' other → writable other)
    (kept : ∀ frame other, holds other = some frame →
      holds slot ≠ some frame → count frame ≤ count' frame)
    (released : ∀ frame, holds slot = some frame →
      count frame ≤ count' frame + 1) :
    Sharing holds' writable' count' := by
  classical
  have notFresh : ∀ other frame, other ≠ slot → holds' other = some frame →
      frame ≠ fresh := by
    rintro other frame different held rfl
    rw [others other different] at held
    exact isFresh other held
  constructor
  · intro frame holders held
    by_cases isNew : frame = fresh
    · subst isNew
      have only : holders ⊆ {slot} := by
        intro other member
        by_contra different
        rw [Finset.mem_singleton] at different
        exact notFresh other frame different (held other member) rfl
      exact (Finset.card_le_card only).trans (by simpa using counted)
    · have notSlot : slot ∉ holders := by
        intro member
        have same := moved.symm.trans (held slot member)
        exact isNew (Option.some_inj.1 same).symm
      have heldBefore : ∀ other ∈ holders, holds other = some frame := by
        intro other member
        have different : other ≠ slot := fun same => notSlot (same ▸ member)
        exact (others other different).symm.trans (held other member)
      rcases holders.eq_empty_or_nonempty with rfl | ⟨other, member⟩
      · simp
      · by_cases wasHere : holds slot = some frame
        · have bound := sharing.counted frame (insert slot holders) (by
            intro holder inside
            rcases Finset.mem_insert.1 inside with rfl | inside
            · exact wasHere
            · exact heldBefore holder inside)
          rw [Finset.card_insert_of_notMem notSlot] at bound
          have kept := released frame wasHere
          omega
        · exact (sharing.counted frame holders heldBefore).trans
            (kept frame other (heldBefore other member) wasHere)
  · intro left right frame canWrite heldLeft heldRight
    by_cases leftMoved : left = slot
    · subst leftMoved
      by_contra different
      have same := Option.some_inj.1 (moved.symm.trans heldLeft)
      exact notFresh right frame different heldRight same.symm
    · by_cases rightMoved : right = slot
      · subst rightMoved
        have same := Option.some_inj.1 (moved.symm.trans heldRight)
        exact absurd same.symm (notFresh left frame leftMoved heldLeft)
      · rw [others left leftMoved] at heldLeft
        rw [others right rightMoved] at heldRight
        exact sharing.exclusive left right frame
          (writes left leftMoved canWrite) heldLeft heldRight

/-- A further slot shares a frame that nobody may write any more. -/
theorem share (sharing : Sharing holds writable count) {slot : Slot}
    {frame : Frame} (spare : Spare holds count slot frame)
    (shared : holds' slot = some frame)
    (others : ∀ other, other ≠ slot → holds' other = holds other)
    (writes : ∀ other, other ≠ slot → writable' other → writable other)
    (readOnly : ∀ other, holds' other = some frame → ¬ writable' other) :
    Sharing holds' writable' count := by
  classical
  constructor
  · intro any holders held
    have heldBefore : ∀ other ∈ holders.erase slot, holds other = some any := by
      intro other member
      obtain ⟨different, member⟩ := Finset.mem_erase.1 member
      exact (others other different).symm.trans (held other member)
    by_cases member : slot ∈ holders
    · obtain rfl := Option.some_inj.1 (shared.symm.trans (held slot member))
      have bound := spare (holders.erase slot) heldBefore
        (Finset.notMem_erase slot holders)
      rw [Finset.card_erase_of_mem member] at bound
      have positive := Finset.card_pos.2 ⟨slot, member⟩
      omega
    · rw [Finset.erase_eq_of_notMem member] at heldBefore
      exact sharing.counted any holders heldBefore
  · intro left right any canWrite heldLeft heldRight
    by_cases isShared : any = frame
    · subst isShared
      exact absurd canWrite (readOnly left heldLeft)
    · have notSlot : ∀ other, holds' other = some any → other ≠ slot := by
        rintro other held rfl
        exact isShared (Option.some_inj.1 (shared.symm.trans held)).symm
      have leftOther := notSlot left heldLeft
      have rightOther := notSlot right heldRight
      rw [others left leftOther] at heldLeft
      rw [others right rightOther] at heldRight
      exact sharing.exclusive left right any (writes left leftOther canWrite)
        heldLeft heldRight

/-- Taking a reference leaves one to spare. -/
theorem spare_of_taken (sharing : Sharing holds writable count) {slot : Slot}
    {frame : Frame} (taken : count frame + 1 ≤ count' frame) :
    Spare holds count' slot frame := by
  intro holders held _
  have bound := sharing.counted frame holders held
  omega

end Sharing

/-! ## Exact counts -/

/-- The frame is counted as often as it is held. -/
def Exact (holds : Slot → Option Frame) (count : Frame → Nat)
    (frame : Frame) : Prop :=
  ∃ holders : Finset Slot, (∀ slot, slot ∈ holders ↔ holds slot = some frame) ∧
    holders.card = count frame

namespace Exact

variable {holds holds' : Slot → Option Frame} {count count' : Frame → Nat}
    {frame : Frame} {slot : Slot}

theorem congr (exact : Exact holds count frame)
    (sameHolds : ∀ slot, holds' slot = some frame ↔ holds slot = some frame)
    (sameCount : count' frame = count frame) : Exact holds' count' frame := by
  obtain ⟨holders, isHolder, card⟩ := exact
  refine ⟨holders, fun slot => ?_, card.trans sameCount.symm⟩
  rw [isHolder, sameHolds]

theorem unheld (none : ∀ slot, holds slot ≠ some frame)
    (zero : count frame = 0) : Exact holds count frame :=
  ⟨∅, fun slot => by simp [none slot], by simp [zero]⟩

/-- The first holder of a frame. -/
theorem first (slot : Slot) (only : ∀ other, holds other = some frame ↔ other = slot)
    (once : count frame = 1) : Exact holds count frame :=
  ⟨{slot}, fun other => by rw [Finset.mem_singleton, only], by simp [once]⟩

/-- A further holder. -/
theorem join (exact : Exact holds count frame) (slot : Slot)
    (before : holds slot ≠ some frame) (after : holds' slot = some frame)
    (others : ∀ other, other ≠ slot → holds' other = holds other)
    (counted : count' frame = count frame + 1) : Exact holds' count' frame := by
  classical
  obtain ⟨holders, isHolder, card⟩ := exact
  refine ⟨insert slot holders, fun other => ?_, ?_⟩
  · rw [Finset.mem_insert]
    by_cases same : other = slot
    · simp [same, after]
    · simp [same, others other same, isHolder]
  · rw [Finset.card_insert_of_notMem fun member => before ((isHolder slot).1 member),
      card, counted]

/-- A holder leaves. -/
theorem leave (exact : Exact holds count frame)
    (before : holds slot = some frame) (after : holds' slot ≠ some frame)
    (others : ∀ other, other ≠ slot → holds' other = holds other)
    (counted : count' frame = count frame - 1) : Exact holds' count' frame := by
  classical
  obtain ⟨holders, isHolder, card⟩ := exact
  refine ⟨holders.erase slot, fun other => ?_, ?_⟩
  · rw [Finset.mem_erase]
    by_cases same : other = slot
    · simp [same, after]
    · simp [same, others other same, isHolder]
  · rw [Finset.card_erase_of_mem ((isHolder slot).2 before), card, counted]

/-- The holders determine the count. -/
theorem count_eq (exact : Exact holds count frame)
    (other : Exact holds count' frame) : count frame = count' frame := by
  obtain ⟨holders, isHolder, card⟩ := exact
  obtain ⟨holders', isHolder', card'⟩ := other
  have same : holders = holders' := Finset.ext fun slot => by
    rw [isHolder, isHolder']
  rw [← card, ← card', same]

/-- A counted frame has a holder. -/
theorem exists_holder (exact : Exact holds count frame)
    (counted : 0 < count frame) : ∃ slot, holds slot = some frame := by
  obtain ⟨holders, isHolder, card⟩ := exact
  obtain ⟨slot, member⟩ := Finset.card_pos.1 (card ▸ counted)
  exact ⟨slot, (isHolder slot).1 member⟩

end Exact

end TinyRiscvOs.Lib
