import TinyRiscvOs.Lib.Bytes

/-!
# Scanning a byte store

Pointer loops over a store: stepping over the bytes that meet a test, and
copying them into another store.  On a text that is known to stand in the store
they agree with `takeWhile` and `dropWhile`.  A loop that finds no end runs out
of fuel.
-/

namespace TinyRiscvOs.Lib.Bytes

/-- The text stands in the store from `start` on. -/
def Spells (bytes : Bytes) (start : Nat) (text : List Byte) : Prop :=
  ∀ i (inside : i < text.length), bytes (start + i) = text[i]

namespace Spells

variable {bytes : Bytes} {start : Nat} {text front back : List Byte} {c : Byte}

theorem head (spells : Spells bytes start (c :: text)) : bytes start = c :=
  spells 0 (Nat.succ_pos _)

theorem tail (spells : Spells bytes start (c :: text)) :
    Spells bytes (start + 1) text := by
  intro i inside
  have shifted := spells (i + 1) (Nat.succ_lt_succ inside)
  rwa [List.getElem_cons_succ, Nat.add_comm i, ← Nat.add_assoc] at shifted

theorem right (spells : Spells bytes start (front ++ back)) :
    Spells bytes (start + front.length) back := by
  intro i inside
  have shifted := spells (front.length + i) (by
    rw [List.length_append]
    omega)
  simpa only [List.getElem_append_right (Nat.le_add_right _ _),
    Nat.add_sub_cancel_left, ← Nat.add_assoc] using shifted

theorem left (spells : Spells bytes start (front ++ back)) :
    Spells bytes start front := by
  intro i inside
  rw [spells i (by rw [List.length_append]; omega),
    List.getElem_append_left inside]

/-- Storing the byte behind a text lengthens it. -/
theorem concat (spells : Spells bytes start text) (c : Byte) :
    Spells (Function.update bytes (start + text.length) c) start
      (text ++ [c]) := by
  intro i inside
  rw [List.length_append, List.length_singleton] at inside
  by_cases last : i = text.length
  · subst last
    rw [Function.update_self, List.getElem_append_right (Nat.le_refl _)]
    simp
  · rw [Function.update_of_ne (by omega), List.getElem_append_left (by omega)]
    exact spells i (by omega)

/-- The part of a text behind the bytes that meet a test. -/
theorem dropWhile (spells : Spells bytes start text) (keep : Byte → Bool) :
    Spells bytes (start + (text.takeWhile keep).length)
      (text.dropWhile keep) := by
  rw [← List.takeWhile_append_dropWhile (p := keep) (l := text)] at spells
  exact spells.right

end Spells

/-! ## Stepping over bytes -/

/-- Step over the bytes that meet the test. -/
def scanWhile (keep : Byte → Bool) (bytes : Bytes) : Nat → Nat → Option Nat
  | 0, _ => none
  | fuel + 1, p =>
      if keep (bytes p) then scanWhile keep bytes fuel (p + 1) else some p

section Scan

variable {keep : Byte → Bool} {bytes : Bytes} {fuel start stop : Nat}
    {text : List Byte}

theorem scanWhile_le (found : scanWhile keep bytes fuel start = some stop) :
    start ≤ stop := by
  induction fuel generalizing start with
  | zero => simp [scanWhile] at found
  | succ fuel induction =>
      rw [scanWhile] at found
      split at found
      · exact Nat.le_of_succ_le (induction found)
      · exact (Option.some.inj found).le

/-- A scan that ends inside a text. -/
theorem scanWhile_spells (spells : Spells bytes start text)
    (ends : text.dropWhile keep ≠ []) :
    scanWhile keep bytes fuel start =
      if (text.takeWhile keep).length < fuel then
        some (start + (text.takeWhile keep).length)
      else none := by
  induction text generalizing start fuel with
  | nil => exact absurd rfl ends
  | cons c text induction =>
      cases fuel with
      | zero => rfl
      | succ fuel =>
          rw [scanWhile, spells.head]
          by_cases kept : keep c = true
          · rw [List.dropWhile_cons_of_pos kept] at ends
            rw [if_pos kept, induction spells.tail ends,
              List.takeWhile_cons_of_pos kept, List.length_cons]
            simp only [Nat.add_lt_add_iff_right, Nat.add_assoc,
              Nat.add_comm 1]
          · rw [if_neg kept, List.takeWhile_cons_of_neg kept]
            simp

/-- A scan that meets no end in a text leaves it. -/
theorem scanWhile_beyond (spells : Spells bytes start text)
    (kept : ∀ c ∈ text, keep c = true)
    (found : scanWhile keep bytes fuel start = some stop) :
    start + text.length ≤ stop := by
  induction text generalizing start fuel with
  | nil => exact scanWhile_le found
  | cons c text induction =>
      cases fuel with
      | zero => simp [scanWhile] at found
      | succ fuel =>
          rw [scanWhile, spells.head,
            if_pos (kept c List.mem_cons_self)] at found
          have rest := induction spells.tail
            (fun c member => kept c (List.mem_cons_of_mem _ member)) found
          rw [List.length_cons]
          omega

end Scan

/-! ## Copying bytes -/

/-- Where a copying loop stopped, in the source and the buffer. -/
structure Copied where
  cmd : Nat
  pos : Nat
  buffer : Bytes

/-- Copy the bytes that meet the test. -/
def copyWhile (keep : Byte → Bool) (bytes : Bytes) :
    Nat → Nat → Nat → Bytes → Option Copied
  | 0, _, _, _ => none
  | fuel + 1, p, pos, buffer =>
      if keep (bytes p) then
        copyWhile keep bytes fuel (p + 1) (pos + 1)
          (Function.update buffer pos (bytes p))
      else some { cmd := p, pos, buffer }

/-- A copy with its first byte split off. -/
theorem copy_first (target : Bytes) (start : Nat) (source : Bytes)
    (origin count : Nat) :
    copy (Function.update target start (source origin)) (start + 1) source
        (origin + 1) count =
      copy target start source origin (count + 1) := by
  funext address
  rw [copy_apply, copy_apply, Function.update_apply]
  by_cases first : address = start
  · subst first
    simp
  · rw [if_neg first]
    by_cases inside : start + 1 ≤ address ∧ address < start + 1 + count
    · have wider : start ≤ address ∧ address < start + (count + 1) := by omega
      have offset : origin + 1 + (address - (start + 1)) =
          origin + (address - start) := by omega
      rw [if_pos inside, if_pos wider, offset]
    · have outside : ¬ (start ≤ address ∧ address < start + (count + 1)) := by
        omega
      rw [if_neg inside, if_neg outside]

/-- The copying loop is the scan with a copy of what it stepped over. -/
theorem copyWhile_eq (keep : Byte → Bool) (bytes : Bytes)
    (fuel start pos : Nat) (buffer : Bytes) :
    copyWhile keep bytes fuel start pos buffer =
      (scanWhile keep bytes fuel start).map fun stop =>
        { cmd := stop, pos := pos + (stop - start),
          buffer := copy buffer pos bytes start (stop - start) } := by
  induction fuel generalizing start pos buffer with
  | zero => rfl
  | succ fuel induction =>
      rw [copyWhile, scanWhile]
      split
      · rw [induction]
        cases found : scanWhile keep bytes fuel (start + 1) with
        | none => rfl
        | some stop =>
            have after := scanWhile_le found
            have count : stop - start = stop - (start + 1) + 1 := by omega
            rw [Option.map_some, Option.map_some, copy_first, count,
              Nat.add_assoc pos, Nat.add_comm 1]
      · simp [copy]

/-- A copied text stands in the buffer. -/
theorem Spells.copied {bytes : Bytes} {origin : Nat} {text : List Byte}
    (spells : Spells bytes origin text) (buffer : Bytes) (pos : Nat) :
    Spells (copy buffer pos bytes origin text.length) pos text := by
  intro i inside
  rw [copy_inside (Nat.le_add_right _ _) (by omega), Nat.add_sub_cancel_left]
  exact spells i inside

/-! ## Terminated texts -/

section Terminated

variable {keep : Byte → Bool} {bytes : Bytes} {fuel start : Nat}
    {text : List Byte} {last : Byte}

theorem takeWhile_terminated (stops : keep last = false) :
    (text ++ [last]).takeWhile keep = text.takeWhile keep := by
  induction text with
  | nil => simp [stops]
  | cons c text induction =>
      rw [List.cons_append, List.takeWhile_cons, List.takeWhile_cons, induction]

theorem dropWhile_terminated (stops : keep last = false) :
    (text ++ [last]).dropWhile keep = text.dropWhile keep ++ [last] := by
  induction text with
  | nil => simp [stops]
  | cons c text induction =>
      rw [List.cons_append, List.dropWhile_cons, List.dropWhile_cons, induction]
      split <;> rfl

/-- A scan of a text whose last byte stops it. -/
theorem scanWhile_terminated (spells : Spells bytes start (text ++ [last]))
    (stops : keep last = false) :
    scanWhile keep bytes fuel start =
      if (text.takeWhile keep).length < fuel then
        some (start + (text.takeWhile keep).length)
      else none := by
  have ends : (text ++ [last]).dropWhile keep ≠ [] := by
    rw [dropWhile_terminated stops]
    simp
  rw [scanWhile_spells spells ends, takeWhile_terminated stops]

theorem Spells.dropWhile_terminated
    (spells : Spells bytes start (text ++ [last]))
    (stops : keep last = false) :
    Spells bytes (start + (text.takeWhile keep).length)
      (text.dropWhile keep ++ [last]) := by
  have rest := spells.dropWhile keep
  rwa [takeWhile_terminated stops, Bytes.dropWhile_terminated stops] at rest

end Terminated

end TinyRiscvOs.Lib.Bytes
