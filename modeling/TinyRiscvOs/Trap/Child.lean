import TinyRiscvOs.Trap.Steps

/-!
# The page of a forked task

`do_fork` copies the page of the caller and redirects the copy: the frame in
the copy is the one `__ret_from_fork` will pop.
-/

namespace TinyRiscvOs.Trap

open TinyRiscvOs.Lib
open TinyRiscvOs.Vm
open Cpu

namespace Sys

variable {labels : Labels} {s : Sys}

/-! ## The stores of `do_fork` -/

section

variable {mem : Bytes} {page sscratch count child pgd mmap : Nat}

/-- The page of the child before its frame is changed. -/
def childMem (labels : Labels) (mem : Bytes)
    (page sscratch count child pgd mmap : Nat) : Bytes :=
  let mem := Bytes.copy mem child mem page pageSize
  let mem := store mem (child + 24) count
  let mem := store mem (child + 184) mmap
  let mem := store mem (child + 176) pgd
  let mem := store mem (child + 32) labels.retFromFork
  let mem := store mem (child + 40) (frameBase child)
  let mem := store mem (child + 32 + 8 * 15) sstatusSum
  store mem (child + 32 + 8 * 16) sscratch

/-- The frame of the child is where the caller's is in its own page. -/
theorem forkMem_eq :
    forkMem labels mem page (frameBase page) sscratch count child pgd mmap =
      answerMem
        (store (childMem labels mem page sscratch count child pgd mmap)
          (frameBase child + 8 * 2) (frameBase child))
        (frameBase child) (some 0) := by
  have base : child + pageSize - (page + pageSize - frameBase page) =
      frameBase child := by
    simp only [frameBase, pageSize, frameSize]
    omega
  rw [forkMem, base]
  rfl

theorem childMem_outside {address : Nat}
    (outside : address < child ∨ child + pageSize ≤ address) :
    childMem labels mem page sscratch count child pgd mmap address =
      mem address := by
  simp only [pageSize] at outside
  simp only [childMem]
  repeat rw [store_outside (by omega)]
  exact Bytes.copy_outside (by simp only [pageSize]; omega)

theorem childMem_word (slot value : Nat) (place : (slot = 0 ∧
      value = labels.retFromFork) ∨ (slot = 1 ∧ value = frameBase child) ∨
      (slot = 16 ∧ value = sscratch)) :
    threadWord (childMem labels mem page sscratch count child pgd mmap) child
      slot = value % 2 ^ 64 := by
  simp only [childMem, threadWord]
  rcases place with ⟨rfl, rfl⟩ | ⟨rfl, rfl⟩ | ⟨rfl, rfl⟩
  · rw [load_store_of_disjoint (by omega), load_store_of_disjoint (by omega),
      load_store_of_disjoint (by omega)]
    exact load_store _ _ _
  · rw [load_store_of_disjoint (by omega), load_store_of_disjoint (by omega)]
    exact load_store _ _ _
  · exact load_store _ _ _

/-- The copy of the frame. -/
theorem childMem_frame {slot : Nat} (small : slot < 34) :
    load (childMem labels mem page sscratch count child pgd mmap)
        (frameBase child + 8 * slot) =
      load mem (frameBase page + 8 * slot) := by
  simp only [frameBase, pageSize, frameSize, childMem]
  repeat rw [load_store_of_disjoint (by omega)]
  refine Bytes.littleEndian_shift fun index near => ?_
  rw [Bytes.copy_inside (by omega) (by omega)]
  congr 1
  omega

end

/-! ## The step -/

theorem forkMem_outside {mem : Bytes}
    {page sscratch count child pgd mmap address : Nat}
    (outside : address < child ∨ child + pageSize ≤ address) :
    forkMem labels mem page (frameBase page) sscratch count child pgd mmap
      address = mem address := by
  have away : address < frameBase child ∨
      frameBase child + frameSize ≤ address := by
    simp only [frameBase, pageSize, frameSize] at outside ⊢
    omega
  simp only [frameSize] at away
  rw [forkMem_eq, answerMem_outside (by simp only [frameSize]; omega),
    store_outside (by omega), childMem_outside outside]

/-- The child waits to return from the system call of its parent. -/
theorem forkMem_waiting {mem : Bytes}
    {page sscratch count child pgd mmap : Nat} {due : Option Context}
    {context : Context} {isIdle : Prop} (kernel : KernelPage child)
    (held : Held mem page sscratch due context) :
    Waiting labels
      (forkMem labels mem page (frameBase page) sscratch count child pgd mmap)
      child .forked
      (due.map fun context : Context => context.answer (some 0)) isIdle := by
  have room := kernel.room
  simp only [pageSize] at room
  have word (slot value : Nat) (small : value < 2 ^ 64) (place : (slot = 0 ∧
        value = labels.retFromFork) ∨ (slot = 1 ∧ value = frameBase child) ∨
        (slot = 16 ∧ value = sscratch)) :
      threadWord (forkMem labels mem page (frameBase page) sscratch count child
        pgd mmap) child slot = value := by
    rw [← Nat.mod_eq_of_lt small, ← childMem_word slot value place]
    refine threadWord_congr (by omega) fun address lower upper => ?_
    have away : address < frameBase child := by
      simp only [frameBase, pageSize, frameSize]
      omega
    rw [forkMem_eq, answerMem_outside (.inl away),
      store_outside (.inl (by omega))]
  have sscratchSmall : sscratch < 2 ^ 64 := by
    rw [held.stack]
    exact held.small
  have baseSmall : frameBase child < 2 ^ 64 := by
    simp only [frameBase, pageSize, frameSize]
    omega
  have own : Held
      (store (childMem labels mem page sscratch count child pgd mmap)
        (frameBase child + 8 * 2) (frameBase child)) child sscratch due
      context := by
    have other (slot : Nat) (small : slot < 34) (different : slot ≠ 2) :
        load (store (childMem labels mem page sscratch count child pgd mmap)
          (frameBase child + 8 * 2) (frameBase child))
          (frameBase child + 8 * slot) =
        load mem (frameBase page + 8 * slot) :=
      (load_store_of_disjoint (by omega)).trans (childMem_frame small)
    refine { held with frame := ⟨fun index lower upper different => ?_, ?_,
      ?_, ?_⟩ }
    · rw [other index (by omega) different]
      exact held.frame.registers index lower upper different
    · rw [load_store, Nat.mod_eq_of_lt baseSmall]
    · rw [other 32 (by decide) (by decide)]
      exact held.frame.sepc
    · rw [other 33 (by decide) (by decide)]
      exact held.frame.sstatus
  refine ⟨word 0 _ labels.retFromFork_lt (.inl ⟨rfl, rfl⟩),
    word 1 _ baseSmall (.inr (.inl ⟨rfl, rfl⟩)),
    context.answer (some 0), ?_⟩
  rw [word 16 _ sscratchSmall (.inr (.inr ⟨rfl, rfl⟩)), forkMem_eq]
  exact own.answer fun value member => by
    rw [← Option.some.inj member]
    decide

theorem Inv.fork (inv : Inv labels s) {child pgd mmap : Nat}
    (legal : s.legal labels (.fork child pgd mmap)) :
    Inv labels (s.fork labels child pgd mmap) := by
  rcases legal with
    ⟨⟨frame, rest, handler, _, _⟩, kernel, fresh, _, _⟩
  rcases inv.single_frame handler with ⟨rfl, base, ⟨context, held⟩, satp⟩
  have agree : ∀ task < s.count, ∀ address, Saved (s.page task) address →
      forkMem labels s.cpu.mem (s.page s.current) s.regs s.cpu.sscratch
        s.count child pgd mmap address = s.cpu.mem address := by
    intro task bound address saved
    rw [inv.regs_eq handler]
    have away := fresh task bound
    simp only [PagesApart, Saved, pageSize] at away saved
    exact forkMem_outside (by simp only [pageSize]; omega)
  have old := inv.withMem handler fun task bound address saved _ =>
    agree task bound address saved
  have page (task : Nat) (bound : task < s.count) :
      Function.update s.page s.count child task = s.page task :=
    Function.update_of_ne (Nat.ne_of_lt bound) _ _
  have current := Nat.ne_of_lt inv.current
  refine ⟨Nat.lt_succ_of_lt inv.current, fun task bound => ?_,
    fun task bound other otherBound different => ?_, ?_,
    fun task bound different => ?_⟩
  · show KernelPage (Function.update s.page s.count child task)
    rcases Nat.lt_succ_iff_lt_or_eq.1 bound with bound | rfl
    · rw [page task bound]
      exact inv.pages task bound
    · rw [Function.update_self]
      exact kernel
  · show PagesApart (Function.update s.page s.count child task)
      (Function.update s.page s.count child other)
    rcases Nat.lt_succ_iff_lt_or_eq.1 bound with bound | rfl
    · rcases Nat.lt_succ_iff_lt_or_eq.1 otherBound with otherBound | rfl
      · rw [page task bound, page other otherBound]
        exact inv.apart task bound other otherBound different
      · rw [page task bound, Function.update_self]
        exact fresh task bound
    · rcases Nat.lt_succ_iff_lt_or_eq.1 otherBound with otherBound | rfl
      · rw [page other otherBound, Function.update_self]
        exact (fresh other otherBound).symm
      · exact absurd rfl different
  · have running := old.running
    show Running _ (Function.update s.page s.count child s.current)
      (Function.update s.phase s.count .forked s.current)
      (Function.update s.due s.count _ s.current) _
    rw [Function.update_of_ne current, Function.update_of_ne current,
      Function.update_of_ne current]
    exact running
  · show Waiting labels _ (Function.update s.page s.count child task)
      (Function.update s.phase s.count .forked task)
      (Function.update s.due s.count _ task) _
    rcases Nat.lt_succ_iff_lt_or_eq.1 bound with bound | rfl
    · have older := Nat.ne_of_lt bound
      rw [Function.update_of_ne older, Function.update_of_ne older,
        Function.update_of_ne older]
      exact old.waiting task bound different
    · have waiting := @forkMem_waiting labels s.cpu.mem (s.page s.current)
        s.cpu.sscratch s.count child pgd mmap _ _ (s.count = 0) kernel held
      rw [← inv.regs_eq handler] at waiting
      rw [Function.update_self, Function.update_self, Function.update_self]
      exact waiting

end Sys

end TinyRiscvOs.Trap
