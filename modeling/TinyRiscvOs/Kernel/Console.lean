import TinyRiscvOs.Kernel.Dispatch
import TinyRiscvOs.Kernel.Printk

/-!
# Writing to the console

`stdout_write` and `stderr_write` copy the buffer to an array on the kernel
stack and terminate the copy, and then give the buffer itself to `printk` as a
format.  The console gets the bytes of the buffer when they happen to be a
terminated string without conversions.
-/

namespace TinyRiscvOs.Kernel

open TinyRiscvOs.Lib
open TinyRiscvOs.Fs

/-- How a write to the console ends. -/
inductive Written where
  /-- `to_print` does not fit on the kernel stack. -/
  | overflow
  /-- The result, the console, the memory and the arguments conversions took. -/
  | returned (value : Int) (out : List Byte) (mem : Bytes) (taken : Nat)

/-- A string literal in memory. -/
def stringMemory (text : String) : Bytes :=
  fun index => (literal text).getD index 0

/-- `RED`. -/
abbrev red : String := "\x1b[31m"

/-- `CLEAR`. -/
abbrev clear : String := "\x1b[0m"

/-- The two streams that end at the console. -/
inductive Stream where
  | stdout
  | stderr
deriving DecidableEq, Repr

namespace Stream

/-- The descriptor that `file_init` gives the stream. -/
def descriptor : Stream → Nat
  | .stdout => 1
  | .stderr => 2

/-- The function that `file_init` stores for it. -/
def symbol : Stream → Symbol
  | .stdout => .stdoutWrite
  | .stderr => .stderrWrite

/-- What is printed before the buffer. -/
def before : Stream → List Byte
  | .stdout => []
  | .stderr => literal red

/-- What is printed after the buffer. -/
def after : Stream → List Byte
  | .stdout => []
  | .stderr => literal clear

end Stream

section Write

variable (args : Nat → Nat) (fuel room : Nat) (mem : Bytes) (out : List Byte)
    (buf len : Nat)

/--
`stdout_write`; `room` is what is left of the kernel stack.  A `len` of
`2 ^ 64 - 1`, for which the array has no bytes, is an overflow as well.
-/
def stdoutWrite : Option Written :=
  if room < len + 1 then some .overflow
  else do
    let p ← printk args fuel buf mem out
    return .returned p.written p.out p.mem p.taken

/-- `stderr_write`. -/
def stderrWrite : Option Written :=
  if room < len + 1 then some .overflow
  else do
    let start ← printk args fuel 0 (stringMemory red) out
    let p ← printk args fuel buf mem start.out
    let last ← printk args fuel 0 (stringMemory clear) p.out
    return .returned p.written last.out p.mem p.taken

/-- The function of a stream. -/
def Stream.write : Stream → Option Written
  | .stdout => stdoutWrite args fuel room mem out buf len
  | .stderr => stderrWrite args fuel room mem out buf len

/-- The console gets the bytes of the buffer, and no conversion is carried out. -/
def Exact (stream : Stream) (written : Written) : Prop :=
  written = .returned len
    (out ++ stream.before ++ bytesAt mem buf len ++ stream.after) mem 0

end Write

/-- The descriptor of the stream is as `file_init` has made it. -/
structure IsStandard (link : Linkage) (table : FilesStruct)
    (stream : Stream) : Prop where
  opened : table.get stream.descriptor .opened ≠ 0
  writable : table.get stream.descriptor .perms &&& fileWritable ≠ 0
  pointer : table.get stream.descriptor .write = link.address stream.symbol

/-- `sys_write` calls the function of the stream. -/
theorem sysWrite_stream {link : Linkage} {table : FilesStruct}
    {stream : Stream} {regs : PtRegs} (standard : IsStandard link table stream)
    (descriptor : regs.x regIdxA0 = stream.descriptor) :
    sysWrite (some table) regs =
      .call (link.address stream.symbol) stream.descriptor (regs.x regIdxA1)
        (regs.x regIdxA2) := by
  rw [sysWrite, sysTransfer]
  simp only [descriptor, standard.opened, standard.writable, if_false,
    standard.pointer]

/-- The colour sequences are printed as they are. -/
theorem printk_literal {args : Nat → Nat} {text : String} {fuel : Nat}
    (out : List Byte) (enough : (literal text).length < fuel)
    (plain : ∀ index < (literal text).length,
      stringMemory text index ≠ 0 ∧ stringMemory text index ≠ byteOf '%') :
    (printk args fuel 0 (stringMemory text) out).map Printer.out =
      some (out ++ literal text) := by
  have terminated : stringMemory text (0 + (literal text).length) = 0 := by
    rw [Nat.zero_add, stringMemory, List.getD_eq_default _ _ (Nat.le_refl _)]
  have whole : bytesAt (stringMemory text) 0 (literal text).length =
      literal text := by
    refine List.ext_getElem (length_bytesAt _ _ _) fun index _ bound => ?_
    simp only [bytesAt, List.getElem_map, List.getElem_range, Nat.zero_add,
      stringMemory]
    exact List.getD_eq_getElem _ _ bound
  rw [printk_plain out enough (by simpa using plain) terminated]
  simp only [Option.map_some, whole]

/-- A terminated string without conversions is written up to its `NUL`. -/
theorem write_plain {args : Nat → Nat} {fuel room : Nat} {mem : Bytes}
    (out : List Byte) {buf len last : Nat} (stream : Stream)
    (fits : len + 1 ≤ room) (enough : last < fuel) (colours : 5 < fuel)
    (plain : ∀ index < last, mem (buf + index) ≠ 0 ∧
      mem (buf + index) ≠ byteOf '%')
    (terminated : mem (buf + last) = 0) :
    stream.write args fuel room mem out buf len =
      some (.returned last
        (out ++ stream.before ++ bytesAt mem buf last ++ stream.after)
        mem 0) := by
  have inside : ¬ room < len + 1 := Nat.not_lt.2 fits
  cases stream with
  | stdout =>
      rw [Stream.write, stdoutWrite, if_neg inside,
        printk_plain out enough plain terminated]
      simp [Stream.before, Stream.after]
  | stderr =>
      obtain ⟨start, started, coloured⟩ := Option.map_eq_some_iff.1
        (@printk_literal args red fuel out (Nat.lt_of_le_of_lt (by decide) colours)
          (by decide))
      obtain ⟨finish, finished, cleared⟩ := Option.map_eq_some_iff.1
        (@printk_literal args clear fuel
          (out ++ literal red ++ bytesAt mem buf last)
          (Nat.lt_of_le_of_lt (by decide) colours) (by decide))
      rw [Stream.write, stderrWrite, if_neg inside, started]
      simp only [Option.bind_eq_bind, Option.bind_some, coloured]
      rw [printk_plain _ enough plain terminated]
      simp only [Option.bind_some, finished, cleared]
      rfl

/--
`sys_write` on a standard stream calls its function.  For a buffer that starts
a string without conversions, with its `NUL` at `last`, the write is byte-exact
if and only if the string ends with the buffer and the copy fits on the stack.
-/
theorem sysWrite_console_iff {link : Linkage} {table : FilesStruct}
    {stream : Stream} {regs : PtRegs} {args : Nat → Nat} {fuel room : Nat}
    {mem : Bytes} {out : List Byte} {last : Nat}
    (standard : IsStandard link table stream)
    (descriptor : regs.x regIdxA0 = stream.descriptor)
    (plain : ∀ index < last, mem (regs.x regIdxA1 + index) ≠ 0 ∧
      mem (regs.x regIdxA1 + index) ≠ byteOf '%')
    (terminated : mem (regs.x regIdxA1 + last) = 0)
    (enough : last < fuel) (colours : 5 < fuel) :
    sysWrite (some table) regs =
        .call (link.address stream.symbol) stream.descriptor (regs.x regIdxA1)
          (regs.x regIdxA2) ∧
      ∃ written,
        stream.write args fuel room mem out (regs.x regIdxA1)
          (regs.x regIdxA2) = some written ∧
        (Exact mem out (regs.x regIdxA1) (regs.x regIdxA2) stream written ↔
          last = regs.x regIdxA2 ∧ regs.x regIdxA2 + 1 ≤ room) := by
  refine ⟨sysWrite_stream standard descriptor, ?_⟩
  by_cases fits : regs.x regIdxA2 + 1 ≤ room
  · refine ⟨_, write_plain out stream fits enough colours plain terminated, ?_⟩
    simp only [fits, and_true]
    constructor
    · intro exact
      injection exact with value
      exact Int.ofNat.inj value
    · rintro rfl
      rfl
  · refine ⟨.overflow, ?_, ?_⟩
    · have outside := Nat.not_le.1 fits
      cases stream <;>
        simp only [Stream.write, stdoutWrite, stderrWrite, outside, if_true]
    · simp only [fits, and_false, iff_false]
      intro exact
      cases exact

/-! ## Two buffers of a new task -/

namespace NewTask

theorem standard : IsStandard link table .stdout where
  opened := by decide +kernel
  writable := by decide +kernel
  pointer := by decide +kernel

/-- The registers of `write(1, 16, len)`. -/
def writeStdout (len : Nat) : PtRegs where
  x index :=
    if index = regIdxA0 then 1
    else if index = regIdxA1 then 16
    else if index = regIdxA2 then len
    else if index = regIdxA7 then 64
    else 0

/-- A string at address `16`. -/
def holding (text : String) : Bytes :=
  fun address => if 16 ≤ address then stringMemory text (address - 16) else 0

end NewTask

/-- The text `"hi\n"`. -/
theorem sysWrite_console_iff_text : ∃ written,
    stdoutWrite (fun _ => 0) 6 1024 (NewTask.holding "hi\n") [] 16 3 =
      some written ∧
    Exact (NewTask.holding "hi\n") [] 16 3 .stdout written := by
  obtain ⟨written, ran, exact_iff⟩ :=
    (@sysWrite_console_iff NewTask.link NewTask.table .stdout
      (NewTask.writeStdout 3) (fun _ => 0) 6 1024 (NewTask.holding "hi\n") [] 3
      NewTask.standard rfl (by decide) (by decide) (by decide) (by decide)).2
  exact ⟨written, ran, exact_iff.2 (by decide)⟩

/-- The text `"100%\n"`: the console gets `"100\n"`, and the result is `4`. -/
theorem stdout_drops_percent :
    stdoutWrite (fun _ => 0) 6 1024 (NewTask.holding "100%\n") [] 16 5 =
      some (.returned 4 (literal "100\n") (NewTask.holding "100%\n") 0) ∧
    ∀ written,
      stdoutWrite (fun _ => 0) 6 1024 (NewTask.holding "100%\n") [] 16 5 =
        some written →
      ¬ Exact (NewTask.holding "100%\n") [] 16 5 .stdout written := by
  have ran :
      stdoutWrite (fun _ => 0) 6 1024 (NewTask.holding "100%\n") [] 16 5 =
        some (.returned 4 (literal "100\n") (NewTask.holding "100%\n") 0) := by
    rfl
  refine ⟨ran, fun written same exact => ?_⟩
  rw [ran] at same
  cases same
  injection exact with value
  exact absurd value (by decide)

end TinyRiscvOs.Kernel
