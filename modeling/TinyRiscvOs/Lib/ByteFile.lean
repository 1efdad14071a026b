import TinyRiscvOs.Lib.Bytes

/-!
# Files of a fixed length

An abstract file is an array of bytes together with one offset for each of its
open handles.  Reads and writes are cut off at the end of the file; a seek is
clamped to it.
-/

namespace TinyRiscvOs.Lib

/-- The bytes of a file and the offsets of its handles. -/
@[ext]
structure ByteFile (Handle : Type) where
  size : Nat
  content : Nat → Byte
  offset : Handle → Nat

/-- Operations on a file; `whence` is `0`, `1` or `2` for start, offset or end. -/
inductive FileOp (Handle : Type) where
  | read (handle : Handle) (buffer : Bytes) (len : Nat)
  | write (handle : Handle) (buffer : Bytes) (len : Nat)
  | seek (handle : Handle) (delta : Int) (whence : Nat)

/-- The answer to an operation. -/
inductive FileReply where
  | read (count : Nat) (buffer : Bytes)
  | write (count : Nat)
  | seek (offset : Int)

namespace ByteFile

variable {Handle : Type} [DecidableEq Handle]

/-- How many bytes a transfer at the offset of a handle moves. -/
def count (file : ByteFile Handle) (handle : Handle) (len : Nat) : Nat :=
  min len (file.size - file.offset handle)

/-- The file after a handle has moved on. -/
def advance (file : ByteFile Handle) (handle : Handle) (len : Nat) :
    ByteFile Handle :=
  { file with
    offset := Function.update file.offset handle
      (file.offset handle + file.count handle len) }

/-- The content with a range replaced. -/
def splice (content : Nat → Byte) (start count : Nat) (buffer : Bytes)
    (position : Nat) : Byte :=
  if start ≤ position ∧ position < start + count then
    buffer (position - start)
  else content position

theorem splice_zero (content : Nat → Byte) (start : Nat) (buffer : Bytes) :
    splice content start 0 buffer = content := by
  funext position
  exact if_neg (by omega)

/-- Where a seek counts from. -/
def base (file : ByteFile Handle) (handle : Handle) : Nat → Option Int
  | 0 => some 0
  | 1 => some (file.offset handle)
  | 2 => some file.size
  | _ => none

/-- One operation; `none` is a seek with an unknown `whence`. -/
def exec (file : ByteFile Handle) :
    FileOp Handle → Option (FileReply × ByteFile Handle)
  | .read handle buffer len =>
      let count := file.count handle len
      some
        (.read count fun index =>
          if index < count then file.content (file.offset handle + index)
          else buffer index,
        file.advance handle len)
  | .write handle buffer len =>
      let count := file.count handle len
      some
        (.write count,
        { file.advance handle len with
          content := splice file.content (file.offset handle) count buffer })
  | .seek handle delta whence =>
      (file.base handle whence).map fun base =>
        let position := max 0 (min (file.size : Int) (base + delta))
        (.seek position,
          { file with
            offset := Function.update file.offset handle position.toNat })

/-- The operations one after the other. -/
def execAll (file : ByteFile Handle) :
    List (FileOp Handle) → Option (List FileReply × ByteFile Handle)
  | [] => some ([], file)
  | op :: rest =>
      (file.exec op).bind fun (reply, file) =>
        (file.execAll rest).map fun (replies, file) => (reply :: replies, file)

/-- The sum of a seek fits into a signed 64-bit word. -/
def InRange (file : ByteFile Handle) : FileOp Handle → Prop
  | .seek handle delta whence =>
      ∀ base ∈ file.base handle whence,
        -2 ^ 63 ≤ base + delta ∧ base + delta < 2 ^ 63
  | _ => True

/-- The sums of all seeks of a sequence of operations fit. -/
def AllInRange : ByteFile Handle → List (FileOp Handle) → Prop
  | _, [] => True
  | file, op :: rest =>
      file.InRange op ∧
        ∀ reply next, file.exec op = some (reply, next) → AllInRange next rest

end ByteFile

end TinyRiscvOs.Lib
