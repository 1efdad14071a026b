import TinyRiscvOs.Kernel.Console
import TinyRiscvOs.Kernel.Formats
import TinyRiscvOs.User.ParseCmd

/-!
# `printf` of a program

`printf` collects its characters in an array, terminates them and writes array
and `NUL` to descriptor `1`, where the kernel reads them as a format once more.
The second reading changes nothing when no `%` was printed.
-/

namespace TinyRiscvOs.User

open TinyRiscvOs.Lib TinyRiscvOs.Lib.Bytes
open TinyRiscvOs.Kernel TinyRiscvOs.Fs

/-! ## The code -/

/-- The length of `buffer`. -/
abbrev printfBufferSize : Nat := 1000

/-- `printf` before its `ecall`. -/
structure PrintfCall where
  res : Int
  tail : Nat
  mem : Bytes

/-- Characters stored one after the other, as `putc` does. -/
def putText (mem : Bytes) (buffer : Nat) (text : List Byte) : Bytes :=
  fun address =>
    if buffer ≤ address ∧ address < buffer + text.length then
      text.getD (address - buffer) 0
    else mem address

/--
`printf` up to its `ecall`, with `buffer` at an address outside of the format
and its strings; `none` also when the characters do not fit into `buffer`.
-/
def printf (args : Nat → Nat) (fuel fmt buffer : Nat) (mem : Bytes) :
    Option PrintfCall := do
  let p ← printk args fuel fmt mem []
  if printfBufferSize < p.out.length + 1 then none
  else
    some
      { res := p.written
        tail := p.out.length + 1
        mem := putText p.mem buffer (p.out ++ [0]) }

/-- The registers of the `ecall`. -/
def PrintfCall.regs (call : PrintfCall) (buffer : Nat) : PtRegs where
  x index :=
    if index = regIdxA0 then 1
    else if index = regIdxA1 then buffer
    else if index = regIdxA2 then call.tail
    else if index = regIdxA7 then 64
    else 0

/-! ## What is shown -/

theorem putText_spells (mem : Bytes) (buffer : Nat) (text : List Byte) :
    Spells (putText mem buffer text) buffer text := by
  intro i inside
  rw [putText, if_pos ⟨by omega, by omega⟩, Nat.add_sub_cancel_left]
  exact List.getD_eq_getElem _ _ inside

theorem bytesAt_of_spells {mem : Bytes} {start : Nat} {text : List Byte}
    (spells : Spells mem start text) : bytesAt mem start text.length = text := by
  refine List.ext_getElem (length_bytesAt _ _ _) fun index _ inside => ?_
  simp only [Kernel.bytesAt, List.getElem_map, List.getElem_range]
  exact spells index inside

/--
`printf` of a format whose pieces print no `NUL` and no `%` and fit into the
buffer: the system call goes to `stdout_write`, which puts exactly the
characters on the console and reports their number, as `printf` itself does.
-/
theorem printf_shows {args : Nat → Nat} {mem : Bytes} {fmt fuel buffer : Nat}
    {pieces : List Piece} {link : Linkage} {table : FilesStruct}
    {kernelArgs : Nat → Nat} {kernelFuel room : Nat} (out : List Byte)
    (spells : Spells mem fmt (pieces.flatMap Piece.text ++ [0]))
    (passes : Passes args 0 (pieces.flatMap Piece.slots))
    (stored : ∀ piece ∈ pieces, piece.Stored mem)
    (enough : 2 * (pieces.flatMap Piece.text).length +
      (pieces.flatMap Piece.render).length + 1 < fuel)
    (fits : (pieces.flatMap Piece.render).length < printfBufferSize)
    (plain : ∀ c ∈ pieces.flatMap Piece.render, c ≠ 0 ∧ c ≠ byteOf '%')
    (standard : IsStandard link table .stdout)
    (stack : (pieces.flatMap Piece.render).length + 2 ≤ room)
    (kernelEnough : (pieces.flatMap Piece.render).length < kernelFuel) :
    ∃ call, printf args fuel fmt buffer mem = some call ∧
      call.res = (pieces.flatMap Piece.render).length ∧
      sysWrite (some table) (call.regs buffer) =
        .call (link.address .stdoutWrite) 1 buffer call.tail ∧
      stdoutWrite kernelArgs kernelFuel room call.mem out buffer call.tail =
        some (.returned call.res (out ++ pieces.flatMap Piece.render) call.mem
          0) := by
  obtain ⟨p, ran, printed, written, -, -, unchanged⟩ :=
    printk_renders [] spells passes stored
      (fits.trans (by decide)) enough
  rw [List.nil_append] at printed
  have whole := putText_spells mem buffer (pieces.flatMap Piece.render ++ [0])
  have ordinary (index : Nat)
      (inside : index < (pieces.flatMap Piece.render).length) :
      putText mem buffer (pieces.flatMap Piece.render ++ [0])
          (buffer + index) ≠ 0 ∧
        putText mem buffer (pieces.flatMap Piece.render ++ [0])
          (buffer + index) ≠ byteOf '%' := by
    rw [whole.left index inside]
    exact plain _ (List.getElem_mem inside)
  have terminated : putText mem buffer (pieces.flatMap Piece.render ++ [0])
      (buffer + (pieces.flatMap Piece.render).length) = 0 :=
    whole.right.head
  refine ⟨
    { res := (pieces.flatMap Piece.render).length
      tail := (pieces.flatMap Piece.render).length + 1
      mem := putText mem buffer (pieces.flatMap Piece.render ++ [0]) },
    ?_, rfl, ?_, ?_⟩
  · have room : ¬ printfBufferSize <
        (pieces.flatMap Piece.render).length + 1 := by
      omega
    simp only [printf, ran, Option.bind_eq_bind, Option.bind_some, printed,
      written, unchanged, room, if_false]
  · exact sysWrite_stream standard rfl
  · rw [stdoutWrite, if_neg (by dsimp only; omega),
      printk_plain out kernelEnough ordinary terminated]
    simp only [Option.bind_eq_bind, Option.bind_some, Option.pure_def,
      bytesAt_of_spells whole.left]

/-- The format with two conversions, in a new task. -/
theorem printf_shows_pid :
    ∃ call, printf PidFormat.args 64 0 4096 PidFormat.mem = some call ∧
      call.res = (PidFormat.pieces.flatMap Piece.render).length ∧
      sysWrite (some NewTask.table) (call.regs 4096) =
        .call (NewTask.link.address .stdoutWrite) 1 4096 call.tail ∧
      stdoutWrite (fun _ => 0) 64 1024 call.mem [] 4096 call.tail =
        some (.returned call.res
          ([] ++ PidFormat.pieces.flatMap Piece.render) call.mem 0) :=
  printf_shows [] (by unfold Spells; decide +kernel)
    ⟨by decide, by decide, trivial⟩ PidFormat.stored (by decide +kernel)
    (by decide +kernel) (by decide +kernel) NewTask.standard (by decide +kernel)
    (by decide +kernel)

end TinyRiscvOs.User
