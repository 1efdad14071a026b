import TinyRiscvOs.Lib.Bytes

/-!
# The structures of `fs.h`
-/

namespace TinyRiscvOs.Fs

open TinyRiscvOs.Lib

/-- `struct fat32_dir`: the position of a directory entry. -/
structure Fat32Dir where
  cluster : Nat
  index : Nat
deriving DecidableEq, Repr

/-- `struct fat32_file`: the first cluster of a file and its directory entry. -/
structure Fat32File where
  cluster : Nat
  dir : Fat32Dir
deriving DecidableEq, Repr

/-- `struct file`; the three function pointers are addresses, `0` is `NULL`. -/
structure File where
  opened : Nat
  perms : Nat
  cfo : Int
  fsType : Nat
  fat32File : Fat32File
  lseek : Nat
  write : Nat
  read : Nat
  path : Bytes

/-- `SEEK_SET`. -/
abbrev seekSet : Nat := 0

/-- `SEEK_CUR`. -/
abbrev seekCur : Nat := 1

/-- `SEEK_END`. -/
abbrev seekEnd : Nat := 2

end TinyRiscvOs.Fs
