import Mathlib.Logic.Function.Basic
import Mathlib.Tactic.Ring

/-!
# Byte stores

A store of bytes is a function from addresses, counted from its own start.
The module has the byte-by-byte copy and little-endian numbers of any width.
-/

namespace TinyRiscvOs.Lib

/-- An octet. -/
abbrev Byte := BitVec 8

/-- Bytes by address. -/
abbrev Bytes := Nat → Byte

namespace Bytes

/-! ## Copying -/

/-- Copy a number of bytes, the first one first. -/
def copy (target : Bytes) (start : Nat) (source : Bytes) (origin : Nat) :
    Nat → Bytes
  | 0 => target
  | count + 1 =>
      Function.update (copy target start source origin count) (start + count)
        (source (origin + count))

theorem copy_apply (target : Bytes) (start : Nat) (source : Bytes)
    (origin count address : Nat) :
    copy target start source origin count address =
      if start ≤ address ∧ address < start + count then
        source (origin + (address - start))
      else target address := by
  induction count with
  | zero =>
      have outside : ¬ (start ≤ address ∧ address < start + 0) := by omega
      rw [if_neg outside, copy]
  | succ count induction =>
      rw [copy, Function.update_apply, induction]
      by_cases last : address = start + count
      · have inside : start ≤ address ∧ address < start + (count + 1) := by
          omega
        have offset : address - start = count := by omega
        rw [if_pos last, if_pos inside, offset]
      · have same : (start ≤ address ∧ address < start + (count + 1)) ↔
            (start ≤ address ∧ address < start + count) := by
          omega
        rw [if_neg last]
        simp only [same]

theorem copy_inside {target source : Bytes} {start origin count address : Nat}
    (lower : start ≤ address) (upper : address < start + count) :
    copy target start source origin count address =
      source (origin + (address - start)) := by
  rw [copy_apply, if_pos ⟨lower, upper⟩]

theorem copy_outside {target source : Bytes} {start origin count address : Nat}
    (outside : address < start ∨ start + count ≤ address) :
    copy target start source origin count address = target address := by
  rw [copy_apply, if_neg (by omega)]

/-! ## Copying inside one store -/

/-- The copying loop inside one store: what it wrote may be read again later. -/
def copyLoop (bytes : Bytes) (start origin : Nat) : Nat → Bytes
  | 0 => bytes
  | count + 1 =>
      let bytes := copyLoop bytes start origin count
      Function.update bytes (start + count) (bytes (origin + count))

/-- Where the loop finds the byte it writes `offset` bytes after `start`. -/
def copySource (start origin count offset : Nat) : Nat :=
  if origin < start ∧ start < origin + count then
    origin + offset % (start - origin)
  else origin + offset

/-- `copyLoop` in closed form: a copy onto its own tail repeats the head. -/
def move (bytes : Bytes) (start origin count : Nat) : Bytes := fun address =>
  if start ≤ address ∧ address < start + count then
    bytes (copySource start origin count (address - start))
  else bytes address

theorem move_outside {bytes : Bytes} {start origin count address : Nat}
    (outside : address < start ∨ start + count ≤ address) :
    move bytes start origin count address = bytes address :=
  if_neg (by omega)

/-- Without a tail overlap the target is a copy of the source as it was. -/
theorem move_inside {bytes : Bytes} {start origin count address : Nat}
    (apart : start ≤ origin ∨ origin + count ≤ start)
    (lower : start ≤ address) (upper : address < start + count) :
    move bytes start origin count address =
      bytes (origin + (address - start)) := by
  have noOverlap : ¬ (origin < start ∧ start < origin + count) := by omega
  rw [move, if_pos ⟨lower, upper⟩, copySource, if_neg noOverlap]

/-- What the loop has written after `done` of the `count` steps. -/
private theorem copyLoop_apply (bytes : Bytes) (start origin count : Nat)
    {done : Nat} (within : done ≤ count) (address : Nat) :
    copyLoop bytes start origin done address =
      if start ≤ address ∧ address < start + done then
        bytes (copySource start origin count (address - start))
      else bytes address := by
  induction done generalizing address with
  | zero =>
      have outside : ¬ (start ≤ address ∧ address < start + 0) := by omega
      rw [if_neg outside, copyLoop]
  | succ done induction =>
      rw [copyLoop, Function.update_apply]
      by_cases last : address = start + done
      · subst last
        have offset : start + done - start = done := by omega
        rw [if_pos rfl, if_pos (by omega), induction (by omega), offset]
        -- The byte read is one the loop wrote exactly when it lies behind `start`.
        by_cases overlap : origin < start ∧ start < origin + count
        · have source (offset : Nat) :
              copySource start origin count offset =
                origin + offset % (start - origin) :=
            if_pos overlap
          simp only [source]
          by_cases written : start ≤ origin + done
          · have back : origin + done - start = done - (start - origin) := by
              omega
            have period : (done - (start - origin)) % (start - origin) =
                done % (start - origin) :=
              (Nat.mod_eq_sub_mod (by omega)).symm
            rw [if_pos (by omega), back, period]
          · rw [if_neg (by omega), Nat.mod_eq_of_lt (by omega)]
        · have source : copySource start origin count done = origin + done :=
            if_neg overlap
          rw [source, if_neg (by omega)]
      · have same : (start ≤ address ∧ address < start + (done + 1)) ↔
            (start ≤ address ∧ address < start + done) := by
          omega
        rw [if_neg last, induction (by omega)]
        simp only [same]

/-- The loop computes the closed form. -/
theorem copyLoop_eq_move (bytes : Bytes) (start origin count : Nat) :
    copyLoop bytes start origin count = move bytes start origin count := by
  funext address
  exact copyLoop_apply bytes start origin count (Nat.le_refl _) address

/-- One byte everywhere in a range. -/
def fill (bytes : Bytes) (start : Nat) (value : Byte) (count : Nat) : Bytes :=
  fun address =>
    if start ≤ address ∧ address < start + count then value else bytes address

theorem fill_inside {bytes : Bytes} {start count address : Nat} {value : Byte}
    (lower : start ≤ address) (upper : address < start + count) :
    fill bytes start value count address = value :=
  if_pos ⟨lower, upper⟩

theorem fill_outside {bytes : Bytes} {start count address : Nat} {value : Byte}
    (outside : address < start ∨ start + count ≤ address) :
    fill bytes start value count address = bytes address :=
  if_neg (by omega)

/-! ## Little-endian numbers -/

/-- The number in `width` bytes, the least significant first. -/
def littleEndian (bytes : Bytes) (start : Nat) : Nat → Nat
  | 0 => 0
  | width + 1 =>
      (bytes start).toNat + 256 * littleEndian bytes (start + 1) width

/-- Store a number in `width` bytes, the least significant first. -/
def putLittleEndian (bytes : Bytes) (start value : Nat) : Nat → Bytes
  | 0 => bytes
  | width + 1 =>
      putLittleEndian
        (Function.update bytes start (BitVec.ofNat 8 value))
        (start + 1) (value / 256) width

/-- `putLittleEndian` in closed form. -/
def store (bytes : Bytes) (start value width : Nat) : Bytes := fun address =>
  if start ≤ address ∧ address < start + width then
    BitVec.ofNat 8 (value / 256 ^ (address - start))
  else bytes address

theorem putLittleEndian_eq_store (bytes : Bytes) (start value width : Nat) :
    putLittleEndian bytes start value width = store bytes start value width := by
  funext address
  induction width generalizing bytes start value with
  | zero => rw [putLittleEndian, store, if_neg (by omega)]
  | succ width induction =>
      rw [putLittleEndian, induction, store, store]
      by_cases first : address = start
      · subst first
        rw [if_neg (by omega), if_pos (by omega), Function.update_self,
          Nat.sub_self, Nat.pow_zero, Nat.div_one]
      · have same : (start + 1 ≤ address ∧ address < start + 1 + width) ↔
            (start ≤ address ∧ address < start + (width + 1)) := by
          omega
        simp only [same, Function.update_of_ne first]
        split
        · have shift : address - start = address - (start + 1) + 1 := by omega
          rw [shift, Nat.pow_succ', Nat.div_div_eq_div_mul]
        · rfl

theorem littleEndian_lt (bytes : Bytes) (start width : Nat) :
    littleEndian bytes start width < 256 ^ width := by
  induction width generalizing start with
  | zero => simp [littleEndian]
  | succ width induction =>
      have low := (bytes start).isLt
      have high := induction (start + 1)
      rw [littleEndian, Nat.pow_succ]
      omega

/-- The number depends on its own bytes only. -/
theorem littleEndian_congr {left right : Bytes} {start width : Nat}
    (agree : ∀ address, start ≤ address → address < start + width →
      left address = right address) :
    littleEndian left start width = littleEndian right start width := by
  induction width generalizing start with
  | zero => rfl
  | succ width induction =>
      have first := agree start (Nat.le_refl _) (by omega)
      have rest : littleEndian left (start + 1) width =
          littleEndian right (start + 1) width :=
        induction fun address lower upper =>
          agree address (by omega) (by omega)
      rw [littleEndian, littleEndian, first, rest]

/-- The number depends on its bytes, not on where they are. -/
theorem littleEndian_shift {left right : Bytes} {start other width : Nat}
    (agree : ∀ index < width, right (other + index) = left (start + index)) :
    littleEndian right other width = littleEndian left start width := by
  induction width generalizing start other with
  | zero => rfl
  | succ width induction =>
      have first : right other = left start := agree 0 (Nat.succ_pos _)
      have rest : littleEndian right (other + 1) width =
          littleEndian left (start + 1) width :=
        induction fun index small => by
          have next := agree (index + 1) (by omega)
          rwa [Nat.add_assoc, Nat.add_assoc, Nat.add_comm 1 index]
      rw [littleEndian, littleEndian, first, rest]

theorem putLittleEndian_outside {bytes : Bytes}
    {start value width address : Nat}
    (outside : address < start ∨ start + width ≤ address) :
    putLittleEndian bytes start value width address = bytes address := by
  induction width generalizing bytes start value with
  | zero => rfl
  | succ width induction =>
      rw [putLittleEndian, induction (by omega),
        Function.update_of_ne (by omega)]

/-- Reading back a stored number. -/
theorem littleEndian_putLittleEndian (bytes : Bytes)
    (start value width : Nat) :
    littleEndian (putLittleEndian bytes start value width) start width =
      value % 256 ^ width := by
  induction width generalizing bytes start value with
  | zero => simp [littleEndian, Nat.mod_one]
  | succ width induction =>
      have low : putLittleEndian
          (Function.update bytes start (BitVec.ofNat 8 value))
          (start + 1) (value / 256) width start = BitVec.ofNat 8 value := by
        rw [putLittleEndian_outside (by omega), Function.update_self]
      have radix : 256 ^ (width + 1) = 256 * 256 ^ width := Nat.pow_succ'
      rw [putLittleEndian, littleEndian, low, induction, BitVec.toNat_ofNat,
        radix, Nat.mod_mul]

/-- Numbers that do not meet the stored bytes are unchanged. -/
theorem littleEndian_putLittleEndian_of_disjoint {bytes : Bytes}
    {start value width other count : Nat}
    (disjoint : other + count ≤ start ∨ start + width ≤ other) :
    littleEndian (putLittleEndian bytes start value width) other count =
      littleEndian bytes other count :=
  littleEndian_congr fun _ _ _ => putLittleEndian_outside (by omega)

/-- Bytes that are all zero are the number zero. -/
theorem littleEndian_eq_zero {bytes : Bytes} {start width : Nat}
    (zero : ∀ address, start ≤ address → address < start + width →
      bytes address = 0) :
    littleEndian bytes start width = 0 := by
  induction width generalizing start with
  | zero => rfl
  | succ width induction =>
      have first := zero start (Nat.le_refl _) (by omega)
      have rest := @induction (start + 1) fun address lower upper =>
        zero address (by omega) (by omega)
      rw [littleEndian, first, rest]
      rfl

/-! ## Several numbers -/

/-- Store one number per slot, the slots in the order of the list. -/
def putSlots (bytes : Bytes) (place value : Nat → Nat) (width : Nat) :
    List Nat → Bytes
  | [] => bytes
  | slot :: slots =>
      putSlots (putLittleEndian bytes (place slot) (value slot) width)
        place value width slots

theorem putSlots_outside {place value : Nat → Nat} {width address : Nat}
    {slots : List Nat} :
    ∀ {bytes : Bytes},
      (∀ slot ∈ slots, address < place slot ∨ place slot + width ≤ address) →
      putSlots bytes place value width slots address = bytes address := by
  induction slots with
  | nil => exact fun _ => rfl
  | cons slot slots induction =>
      intro bytes outside
      rw [putSlots, induction fun other member =>
          outside other (List.mem_cons_of_mem _ member),
        putLittleEndian_outside (outside slot List.mem_cons_self)]

/-- Reading back one of several numbers that do not meet each other. -/
theorem littleEndian_putSlots {place value : Nat → Nat} {width : Nat}
    {slots : List Nat} :
    ∀ {bytes : Bytes} {slot : Nat}, slot ∈ slots →
      (∀ one ∈ slots, ∀ other ∈ slots, one ≠ other →
        place one + width ≤ place other ∨ place other + width ≤ place one) →
      littleEndian (putSlots bytes place value width slots) (place slot) width =
        value slot % 256 ^ width := by
  induction slots with
  | nil =>
      intro bytes slot member
      exact absurd member List.not_mem_nil
  | cons first slots induction =>
      intro bytes slot member apart
      have rest : ∀ one ∈ slots, ∀ other ∈ slots, one ≠ other →
          place one + width ≤ place other ∨ place other + width ≤ place one :=
        fun one oneMember other otherMember =>
          apart one (List.mem_cons_of_mem _ oneMember) other
            (List.mem_cons_of_mem _ otherMember)
      by_cases later : slot ∈ slots
      · exact induction later rest
      · -- The slot is the first one and no later store meets it.
        have equal : slot = first := by
          rcases List.mem_cons.1 member with equal | member
          · exact equal
          · exact absurd member later
        subst equal
        have frame : littleEndian
              (putSlots (putLittleEndian bytes (place slot) (value slot) width)
                place value width slots) (place slot) width =
            littleEndian
              (putLittleEndian bytes (place slot) (value slot) width)
              (place slot) width :=
          littleEndian_congr fun address lower upper =>
            putSlots_outside fun other otherMember => by
              have different : other ≠ slot := by
                rintro rfl
                exact later otherMember
              have disjoint := apart other
                (List.mem_cons_of_mem _ otherMember) slot
                List.mem_cons_self different
              omega
        rw [putSlots, frame, littleEndian_putLittleEndian]

end Bytes

end TinyRiscvOs.Lib
