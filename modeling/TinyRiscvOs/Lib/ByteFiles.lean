import TinyRiscvOs.Lib.ByteFile
import TinyRiscvOs.Lib.Calls

/-!
# Many files

A family of abstract files, and handles that are open on one of them each.  An
operation is that of the one file with the one handle; all other contents and
offsets stay.
-/

namespace TinyRiscvOs.Lib

variable {Name Handle : Type}

/-- The contents of the files and the offsets of the handles. -/
@[ext]
structure ByteFiles (Name Handle : Type) where
  size : Name → Nat
  content : Name → Nat → Byte
  offset : Handle → Nat

/-- No operation moves an offset past the end, unless it was there before. -/
theorem ByteFile.exec_offset_le [DecidableEq Handle] {file next : ByteFile Handle}
    {op : FileOp Handle} {reply : FileReply}
    (ran : file.exec op = some (reply, next)) (handle : Handle) :
    next.offset handle ≤ max (file.offset handle) file.size := by
  have moved (other : Handle) (position : Nat)
      (bound : position ≤ max (file.offset other) file.size) :
      Function.update file.offset other position handle ≤
        max (file.offset handle) file.size := by
    rw [Function.update_apply]
    split
    · rename_i same
      exact same ▸ bound
    · exact le_max_left _ _
  cases op with
  | read other buffer len | write other buffer len =>
      obtain ⟨_, rfl⟩ := Prod.mk.inj (Option.some_inj.1 ran)
      refine moved other _ ?_
      rw [ByteFile.count]
      omega
  | seek other delta whence =>
      obtain ⟨base, _, same⟩ := Option.map_eq_some_iff.1 ran
      obtain ⟨_, rfl⟩ := Prod.mk.inj same
      refine moved other _ ?_
      omega

namespace FileOp

/-- The handle an operation is for. -/
def handle : FileOp Handle → Handle
  | .read handle _ _ => handle
  | .write handle _ _ => handle
  | .seek handle _ _ => handle

/-- The operation on a file with one handle. -/
def single : FileOp Handle → FileOp Unit
  | .read _ buffer len => .read () buffer len
  | .write _ buffer len => .write () buffer len
  | .seek _ delta whence => .seek () delta whence

end FileOp

namespace ByteFiles

/-- The file of a handle, as the handle sees it. -/
def seen (denotes : Handle → Name) (files : ByteFiles Name Handle)
    (handle : Handle) : ByteFile Unit where
  size := files.size (denotes handle)
  content := files.content (denotes handle)
  offset := fun _ => files.offset handle

variable [DecidableEq Name] [DecidableEq Handle]

/-- The files after an operation on the one of a handle. -/
def store (denotes : Handle → Name) (files : ByteFiles Name Handle)
    (handle : Handle) (file : ByteFile Unit) : ByteFiles Name Handle where
  size := files.size
  content := Function.update files.content (denotes handle) file.content
  offset := Function.update files.offset handle (file.offset ())

/-- One operation; `none` is a seek with an unknown `whence`. -/
def exec (denotes : Handle → Name) (files : ByteFiles Name Handle)
    (op : FileOp Handle) : Option (FileReply × ByteFiles Name Handle) :=
  ((files.seen denotes op.handle).exec op.single).map fun result =>
    (result.1, files.store denotes op.handle result.2)

/-- The sum of a seek fits into a signed 64-bit word. -/
def InRange (denotes : Handle → Name) (files : ByteFiles Name Handle)
    (op : FileOp Handle) : Prop :=
  (files.seen denotes op.handle).InRange op.single

end ByteFiles

end TinyRiscvOs.Lib
