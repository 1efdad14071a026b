import TinyRiscvOs.Lib.Bytes
import Mathlib.Data.Int.Basic

/-!
# Formatted output

`vprintfmt` of `printk.c` over a memory of bytes.  The arguments of a call are
the 64-bit slots that `va_arg` walks through; a call without arguments finds
whatever the argument registers hold.  Scans for the end of a string or of a
number run on fuel, and `none` means that it was not enough.
-/

namespace TinyRiscvOs.Kernel

open TinyRiscvOs.Lib

/-- A character literal of the source. -/
abbrev byteOf (c : Char) : Byte :=
  BitVec.ofNat 8 c.toNat

/-- A string literal of the source. -/
def literal (text : String) : List Byte :=
  text.toList.map byteOf

/-- The value of the low bits as a signed number: the conversion to `int` or `long`. -/
def signed (bits : Nat) (value : Int) : Int :=
  let low := value % 2 ^ bits
  if low < 2 ^ (bits - 1) then low else low - 2 ^ bits

/-- The value of an `int` expression; the kernel is compiled without optimisation. -/
def wrapInt (value : Int) : Int :=
  signed 32 value

theorem wrapInt_of_fits {value : Int} (lower : -2 ^ 31 ≤ value)
    (upper : value < 2 ^ 31) : wrapInt value = value := by
  rw [wrapInt, signed]
  split <;> omega

/-- `struct fmt_flags`. -/
structure FmtFlags where
  inFormat : Bool
  longflag : Bool
  sharpflag : Bool
  zeroflag : Bool
  spaceflag : Bool
  sign : Bool
  width : Int
  prec : Int
deriving DecidableEq, Repr

/-- `struct fmt_flags flags = {}`. -/
def FmtFlags.cleared : FmtFlags where
  inFormat := false
  longflag := false
  sharpflag := false
  zeroflag := false
  spaceflag := false
  sign := false
  width := 0
  prec := 0

/-! ## Numbers -/

/-- `isspace`. -/
def isspace (c : Byte) : Bool :=
  c = byteOf ' ' ∨ (0x09 ≤ c ∧ c ≤ 0x0d)

/-- The `digit` of a character in the loop of `strtol`. -/
def digitOf (c : Byte) : Option Nat :=
  if byteOf '0' ≤ c ∧ c ≤ byteOf '9' then some (c.toNat - 0x30)
  else if byteOf 'a' ≤ c ∧ c ≤ byteOf 'z' then some (c.toNat - (0x61 - 10))
  else if byteOf 'A' ≤ c ∧ c ≤ byteOf 'Z' then some (c.toNat - (0x41 - 10))
  else none

/-- The first loop of `strtol`. -/
def skipSpaces (mem : Bytes) : Nat → Nat → Option Nat
  | 0, _ => none
  | fuel + 1, p => if isspace (mem p) then skipSpaces mem fuel (p + 1) else some p

/-- The second loop of `strtol`. -/
def strtolDigits (mem : Bytes) (base : Nat) :
    Nat → Nat → Int → Option (Int × Nat)
  | 0, _, _ => none
  | fuel + 1, p, ret =>
      match digitOf (mem p) with
      | none => some (ret, p)
      | some digit =>
          if digit ≥ base then some (ret, p)
          else strtolDigits mem base fuel (p + 1) (signed 64 (ret * base + digit))

/-- `strtol`: the number and `endptr`. -/
def strtol (mem : Bytes) (fuel nptr base : Nat) : Option (Int × Nat) := do
  let p ← skipSpaces mem fuel nptr
  let (neg, p) :=
    if mem p = byteOf '-' then (true, p + 1)
    else if mem p = byteOf '+' then (false, p + 1)
    else (false, p)
  let (base, p) :=
    if base = 0 then
      if mem p = byteOf '0' then
        if mem (p + 1) = byteOf 'x' ∨ mem (p + 1) = byteOf 'X' then (16, p + 2)
        else (8, p + 1)
      else (10, p)
    else (base, p)
  let (ret, p) ← strtolDigits mem base fuel p 0
  return (if neg then signed 64 (-ret) else ret, p)

/-- The digits of a `do … while (num)` loop, the last one first. -/
def digits (base : Nat) : Nat → Nat → List Nat
  | 0, _ => []
  | fuel + 1, num =>
      num % base :: if num / base = 0 then [] else digits base fuel (num / base)

/-- A loop that prints one character a number of times. -/
def repeated (count : Int) (c : Byte) : List Byte :=
  List.replicate count.toNat c

/-- `print_dec_int`: the characters and the precision it leaves in the flags. -/
def printDecInt (num : Nat) (isSigned : Bool) (flags : FmtFlags) :
    List Byte × Int :=
  if isSigned ∧ num = 0x8000000000000000 then
    (literal "-9223372036854775808", flags.prec)
  else if flags.prec = 0 ∧ num = 0 then ([], flags.prec)
  else
    let neg := isSigned ∧ signed 64 num < 0
    let num := if neg then (2 ^ 64 - num) % 2 ^ 64 else num
    let hasSignChar := isSigned ∧ (neg ∨ flags.sign ∨ flags.spaceflag)
    let sign : Int := if hasSignChar then 1 else 0
    let buf := digits 10 20 num
    let prec :=
      if flags.prec = -1 ∧ flags.zeroflag then flags.width else flags.prec
    let decdigits : Int := buf.length
    (repeated (wrapInt (flags.width - max decdigits prec - sign)) (byteOf ' ') ++
      (if hasSignChar then
        [if neg then byteOf '-' else if flags.sign then byteOf '+' else byteOf ' ']
      else []) ++
      repeated (wrapInt (prec - sign) - decdigits) (byteOf '0') ++
      buf.reverse.map fun digit => BitVec.ofNat 8 (digit + 0x30),
      prec)

/-- The characters of the `x`, `X` and `p` conversions, and the precision. -/
def printHex (num : Nat) (conversion : Byte) (flags : FmtFlags) :
    List Byte × Int :=
  let pointer := conversion = byteOf 'p'
  let upper := conversion = byteOf 'X'
  if flags.prec = 0 ∧ num = 0 ∧ ¬ pointer then ([], flags.prec)
  else
    let isPrefixed := pointer ∨ (flags.sharpflag ∧ num ≠ 0)
    let room : Int := if isPrefixed then 2 else 0
    let xdigits := if upper then "0123456789ABCDEF" else "0123456789abcdef"
    let buf := digits 16 16 num
    let prec :=
      if flags.prec = -1 ∧ flags.zeroflag then wrapInt (flags.width - room)
      else flags.prec
    let hexdigits : Int := buf.length
    (repeated (wrapInt (flags.width - room - max hexdigits prec)) (byteOf ' ') ++
      (if isPrefixed then
        [byteOf '0', if upper then byteOf 'X' else byteOf 'x']
      else []) ++
      repeated (prec - hexdigits) (byteOf '0') ++
      buf.reverse.map fun digit => (literal xdigits).getD digit 0,
      prec)

/-! ## The loop over the format -/

/-- The variables of `vprintfmt`, the memory it writes and the console. -/
structure Printer where
  fmt : Nat
  flags : FmtFlags
  /-- The characters counted, an `int` while there are fewer than `2 ^ 31`. -/
  written : Int
  /-- The number of arguments that `va_arg` has taken. -/
  taken : Nat
  mem : Bytes
  out : List Byte

namespace Printer

/-- Print characters and count them. -/
def print (p : Printer) (bytes : List Byte) : Printer :=
  { p with out := p.out ++ bytes, written := p.written + bytes.length }

/-- `flags.in_format = false` after a conversion. -/
def finish (p : Printer) : Printer :=
  { p with flags := { p.flags with inFormat := false } }

/-- `va_arg`: the slot, and the printer that has taken it. -/
def vaArg (args : Nat → Nat) (p : Printer) : Nat × Printer :=
  (args p.taken, { p with taken := p.taken + 1 })

/-- The bytes of a string up to its `NUL`. -/
def cstring (mem : Bytes) : Nat → Nat → Option (List Byte)
  | 0, _ => none
  | fuel + 1, s =>
      if mem s = 0 then some [] else (cstring mem fuel (s + 1)).map (mem s :: ·)

/-- The body of the loop while `in_format` is set. -/
def convert (args : Nat → Nat) (fuel : Nat) (p : Printer) : Option Printer :=
  let c := p.mem p.fmt
  if c = byteOf '#' then some { p with flags.sharpflag := true }
  else if c = byteOf '0' then some { p with flags.zeroflag := true }
  else if c = byteOf 'l' ∨ c = byteOf 'z' ∨ c = byteOf 't' ∨ c = byteOf 'j' then
    some { p with flags.longflag := true }
  else if c = byteOf '+' then some { p with flags.sign := true }
  else if c = byteOf ' ' then some { p with flags.spaceflag := true }
  else if c = byteOf '*' then
    let (slot, p) := p.vaArg args
    some { p with flags.width := signed 32 slot }
  else if byteOf '1' ≤ c ∧ c ≤ byteOf '9' then do
    let (width, endptr) ← strtol p.mem fuel p.fmt 10
    return { p with fmt := endptr - 1, flags.width := signed 32 width }
  else if c = byteOf '.' then
    let p := { p with fmt := p.fmt + 1 }
    if p.mem p.fmt = byteOf '*' then
      let (slot, p) := p.vaArg args
      some { p with flags.prec := signed 32 slot }
    else do
      let (prec, endptr) ← strtol p.mem fuel p.fmt 10
      return { p with fmt := endptr - 1, flags.prec := signed 32 prec }
  else if c = byteOf 'x' ∨ c = byteOf 'X' ∨ c = byteOf 'p' then
    let (slot, p) := p.vaArg args
    let num :=
      if c = byteOf 'p' ∨ p.flags.longflag then slot % 2 ^ 64 else slot % 2 ^ 32
    let (bytes, prec) := printHex num c p.flags
    some (finish { p.print bytes with flags.prec := prec })
  else if c = byteOf 'd' ∨ c = byteOf 'i' ∨ c = byteOf 'u' then
    let (slot, p) := p.vaArg args
    let num := signed (if p.flags.longflag then 64 else 32) slot
    let (bytes, prec) :=
      printDecInt (num % 2 ^ 64).toNat (c ≠ byteOf 'u') p.flags
    some (finish { p.print bytes with flags.prec := prec })
  else if c = byteOf 'n' then
    let (slot, p) := p.vaArg args
    let width := if p.flags.longflag then 8 else 4
    some (finish { p with
      mem := Bytes.putLittleEndian p.mem slot (p.written % 2 ^ 64).toNat width })
  else if c = byteOf 's' then
    let (slot, p) := p.vaArg args
    if slot = 0 then some (finish (p.print (literal "(null)")))
    else (cstring p.mem fuel slot).map fun bytes => finish (p.print bytes)
  else if c = byteOf 'c' then
    let (slot, p) := p.vaArg args
    some (finish (p.print [BitVec.ofNat 8 slot]))
  else if c = byteOf '%' then some (finish (p.print [byteOf '%']))
  else some (finish (p.print [c]))

/-- The body of the loop of `vprintfmt`. -/
def step (args : Nat → Nat) (fuel : Nat) (p : Printer) : Option Printer :=
  if p.flags.inFormat then p.convert args fuel
  else if p.mem p.fmt = byteOf '%' then
    some { p with
      flags := { FmtFlags.cleared with inFormat := true, prec := -1 } }
  else some (p.print [p.mem p.fmt])

/-- `for (; *fmt; fmt++)`; the fuel bounds the iterations and each scan inside. -/
def loop (args : Nat → Nat) : Nat → Printer → Option Printer
  | 0, _ => none
  | fuel + 1, p =>
      if p.mem p.fmt = 0 then some p
      else do
        let p ← p.step args fuel
        loop args fuel { p with fmt := p.fmt + 1 }

end Printer

/-- `printk(fmt)`: the printer when the loop ends. -/
def printk (args : Nat → Nat) (fuel fmt : Nat) (mem : Bytes)
    (out : List Byte) : Option Printer :=
  Printer.loop args fuel
    { fmt, flags := .cleared, written := 0, taken := 0, mem, out }

/-! ## Strings without conversions -/

/-- The bytes of a buffer. -/
def bytesAt (mem : Bytes) (buf len : Nat) : List Byte :=
  (List.range len).map fun index => mem (buf + index)

theorem bytesAt_succ (mem : Bytes) (buf len : Nat) :
    bytesAt mem buf (len + 1) = mem buf :: bytesAt mem (buf + 1) len := by
  simp only [bytesAt, List.range_succ_eq_map, List.map_cons, List.map_map,
    Nat.add_zero]
  congr 2
  funext index
  exact congrArg mem (by omega)

theorem length_bytesAt (mem : Bytes) (buf len : Nat) :
    (bytesAt mem buf len).length = len := by
  simp [bytesAt]

/-- Ordinary characters go to the console as they are. -/
theorem loop_plain {args : Nat → Nat} {p : Printer} {len fuel : Nat}
    (outside : p.flags.inFormat = false) (enough : len < fuel)
    (plain : ∀ index < len, p.mem (p.fmt + index) ≠ 0 ∧
      p.mem (p.fmt + index) ≠ byteOf '%')
    (terminated : p.mem (p.fmt + len) = 0) :
    p.loop args fuel =
      some { p with
        fmt := p.fmt + len
        written := p.written + len
        out := p.out ++ bytesAt p.mem p.fmt len } := by
  induction len generalizing p fuel with
  | zero =>
      obtain ⟨fuel, rfl⟩ : ∃ less, fuel = less + 1 := ⟨fuel - 1, by omega⟩
      rw [Nat.add_zero] at terminated
      rw [Printer.loop, if_pos terminated]
      simp [bytesAt]
  | succ len induction =>
      obtain ⟨fuel, rfl⟩ : ∃ less, fuel = less + 1 := ⟨fuel - 1, by omega⟩
      obtain ⟨nonzero, ordinary⟩ := plain 0 (Nat.succ_pos len)
      rw [Nat.add_zero] at nonzero ordinary
      have printed : p.step args fuel = some (p.print [p.mem p.fmt]) := by
        simp only [Printer.step, outside, ordinary, if_false, Bool.false_eq_true]
      have rest := @induction
        { p.print [p.mem p.fmt] with fmt := p.fmt + 1 } fuel outside (by omega)
        (fun index below => by
          have next := plain (index + 1) (by omega)
          rwa [show p.fmt + (index + 1) = p.fmt + 1 + index by omega] at next)
        (by rwa [show p.fmt + (len + 1) = p.fmt + 1 + len by omega] at terminated)
      rw [Printer.loop, if_neg nonzero, printed]
      simp only [Option.bind_eq_bind, Option.bind_some]
      refine rest.trans (congrArg some ?_)
      simp only [Printer.print, List.length_singleton, bytesAt_succ,
        List.append_assoc, List.cons_append, List.nil_append, Printer.mk.injEq,
        true_and, and_true]
      refine ⟨by omega, ?_⟩
      push_cast
      omega

/-- `printk` of a string without conversions. -/
theorem printk_plain {args : Nat → Nat} {mem : Bytes} {fmt len fuel : Nat}
    (out : List Byte) (enough : len < fuel)
    (plain : ∀ index < len, mem (fmt + index) ≠ 0 ∧
      mem (fmt + index) ≠ byteOf '%')
    (terminated : mem (fmt + len) = 0) :
    printk args fuel fmt mem out =
      some
        { fmt := fmt + len
          flags := .cleared
          written := len
          taken := 0
          mem
          out := out ++ bytesAt mem fmt len } := by
  rw [printk, loop_plain rfl enough plain terminated]
  simp

example :
    ((printk (fun _ => 42) 9 0 (fun index => (literal "<%5d>").getD index 0)
      []).map Printer.out) = some (literal "<   42>") := by
  decide

end TinyRiscvOs.Kernel
