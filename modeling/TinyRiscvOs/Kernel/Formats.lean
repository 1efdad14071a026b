import TinyRiscvOs.Kernel.Numerals

/-!
# Formats

A format as data: characters that are printed as they are, and conversions with
their flags, width, precision and arguments.  `vprintfmt` prints every piece of
a format by itself and takes the arguments in order; what a conversion leaves in
`flags` is of no importance for the next one.
-/

namespace TinyRiscvOs.Kernel

open TinyRiscvOs.Lib TinyRiscvOs.Lib.Bytes

/-! ## The pieces of a format -/

/-- The flag characters. -/
inductive Flag where
  | sharp
  | zero
  | plus
  | space
deriving DecidableEq, Repr

/-- The characters of the length of an argument. -/
inductive Size where
  | l
  | z
  | t
  | j
deriving DecidableEq, Repr

/-- A width or a precision; a star takes an argument. -/
inductive Amount where
  | number (value : Nat)
  | star (slot : Nat)

/-- The letters of the hexadecimal conversions. -/
inductive HexLetter where
  | lower
  | upper
  | pointer
deriving DecidableEq, Repr

/-- The letters of the decimal conversions. -/
inductive DecLetter where
  | d
  | i
  | u
deriving DecidableEq, Repr

/-- What is printed, with its argument; of a string also the characters there. -/
inductive Conversion where
  | hex (letter : HexLetter) (slot : Nat)
  | dec (letter : DecLetter) (slot : Nat)
  | string (slot : Nat) (text : List Byte)
  | char (slot : Nat)
  | percent

/-- A conversion specification. -/
structure Directive where
  flags : List Flag
  width : Option Amount
  prec : Option Amount
  sizes : List Size
  conversion : Conversion
  /-- A width starts with another digit than `0`. -/
  width_pos : ∀ value, width = some (.number value) → 0 < value
  /-- Numbers are of type `int`. -/
  numbers_lt : ∀ value, width = some (.number value) ∨
    prec = some (.number value) → value < 2 ^ 31

/-- A piece of a format. -/
inductive Piece where
  | plain (c : Byte) (nonzero : c ≠ 0) (ordinary : c ≠ byteOf '%')
  | directive (directive : Directive)

/-! ## Its characters -/

def Flag.byte : Flag → Byte
  | .sharp => byteOf '#'
  | .zero => byteOf '0'
  | .plus => byteOf '+'
  | .space => byteOf ' '

def Size.byte : Size → Byte
  | .l => byteOf 'l'
  | .z => byteOf 'z'
  | .t => byteOf 't'
  | .j => byteOf 'j'

def Amount.text : Amount → List Byte
  | .number value => decimalText value
  | .star _ => [byteOf '*']

def HexLetter.byte : HexLetter → Byte
  | .lower => byteOf 'x'
  | .upper => byteOf 'X'
  | .pointer => byteOf 'p'

def DecLetter.byte : DecLetter → Byte
  | .d => byteOf 'd'
  | .i => byteOf 'i'
  | .u => byteOf 'u'

def Conversion.byte : Conversion → Byte
  | .hex letter _ => letter.byte
  | .dec letter _ => letter.byte
  | .string _ _ => byteOf 's'
  | .char _ => byteOf 'c'
  | .percent => byteOf '%'

namespace Directive

/-- The characters of the width. -/
def widthText (d : Directive) : List Byte :=
  (d.width.map Amount.text).getD []

/-- The characters of the precision. -/
def precText (d : Directive) : List Byte :=
  (d.prec.map fun amount => byteOf '.' :: amount.text).getD []

/-- The specification as it stands in a format. -/
def text (d : Directive) : List Byte :=
  byteOf '%' :: (d.flags.map Flag.byte ++ (d.widthText ++ (d.precText ++
    (d.sizes.map Size.byte ++ [d.conversion.byte]))))

end Directive

/-- The characters of a piece. -/
def Piece.text : Piece → List Byte
  | .plain c _ _ => [c]
  | .directive d => d.text

/-! ## Its arguments and its meaning -/

def Amount.slots : Amount → List Nat
  | .number _ => []
  | .star slot => [slot]

def Amount.value : Amount → Int
  | .number value => value
  | .star slot => signed 32 slot

def Conversion.slots : Conversion → List Nat
  | .hex _ slot => [slot]
  | .dec _ slot => [slot]
  | .string slot _ => [slot]
  | .char slot => [slot]
  | .percent => []

/-- What is printed with these flags. -/
def Conversion.render (flags : FmtFlags) : Conversion → List Byte
  | .hex letter slot =>
      (printHex
        (if letter.byte = byteOf 'p' ∨ flags.longflag then slot % 2 ^ 64
          else slot % 2 ^ 32) letter.byte flags).1
  | .dec letter slot =>
      (printDecInt (signed (if flags.longflag then 64 else 32) slot %
        2 ^ 64).toNat (letter ≠ .u) flags).1
  | .string slot text => if slot = 0 then literal "(null)" else text
  | .char slot => [BitVec.ofNat 8 slot]
  | .percent => [byteOf '%']

namespace Directive

/-- The arguments in the order in which they are taken. -/
def slots (d : Directive) : List Nat :=
  (d.width.map Amount.slots).getD [] ++
    ((d.prec.map Amount.slots).getD [] ++ d.conversion.slots)

/-- The `flags` that the conversion finds. -/
def fmtFlags (d : Directive) : FmtFlags where
  inFormat := true
  longflag := d.sizes ≠ []
  sharpflag := .sharp ∈ d.flags
  zeroflag := .zero ∈ d.flags
  spaceflag := .space ∈ d.flags
  sign := .plus ∈ d.flags
  width := (d.width.map Amount.value).getD 0
  prec := (d.prec.map Amount.value).getD (-1)

/-- What is printed. -/
def render (d : Directive) : List Byte :=
  d.conversion.render d.fmtFlags

/-- The string to be printed is in memory. -/
def Stored (mem : Bytes) (d : Directive) : Prop :=
  ∀ slot text, d.conversion = .string slot text → slot ≠ 0 →
    Spells mem slot (text ++ [0]) ∧ ∀ c ∈ text, c ≠ 0

end Directive

namespace Piece

def slots : Piece → List Nat
  | .plain _ _ _ => []
  | .directive d => d.slots

def render : Piece → List Byte
  | .plain c _ _ => [c]
  | .directive d => d.render

def Stored (mem : Bytes) : Piece → Prop
  | .plain _ _ _ => True
  | .directive d => d.Stored mem

end Piece

/-- The arguments from an index on. -/
def Passes (args : Nat → Nat) : Nat → List Nat → Prop
  | _, [] => True
  | first, slot :: rest => args first = slot ∧ Passes args (first + 1) rest

theorem passes_append {args : Nat → Nat} {first : Nat} {front back : List Nat} :
    Passes args first (front ++ back) ↔
      Passes args first front ∧ Passes args (first + front.length) back := by
  induction front generalizing first with
  | nil => simp [Passes]
  | cons slot front induction =>
      rw [List.cons_append, Passes, Passes, induction, List.length_cons,
        and_assoc, Nat.add_assoc, Nat.add_comm 1]

/-! ## Iterations of the loop -/

/-- A number of iterations lead from one printer to another. -/
def Leads (args : Nat → Nat) (room count : Nat) (p q : Printer) : Prop :=
  ∀ fuel, room ≤ fuel → p.loop args (fuel + count) = q.loop args fuel

section Loop

variable {args : Nat → Nat} {room : Nat}

theorem Leads.trans {first second : Nat} {p q r : Printer}
    (before : Leads args room first p q) (after : Leads args room second q r) :
    Leads args room (first + second) p r := by
  intro fuel enough
  rw [Nat.add_comm first, ← Nat.add_assoc, before _ (by omega),
    after fuel enough]

theorem Leads.step {p q : Printer} (nonzero : p.mem p.fmt ≠ 0)
    (steps : ∀ fuel, room ≤ fuel → p.step args fuel = some q) :
    Leads args room 1 p { q with fmt := q.fmt + 1 } := by
  intro fuel enough
  rw [Printer.loop, if_neg nonzero, steps fuel enough]
  rfl

/-! ### Flags and sizes -/

/-- What the loop does with a flag character. -/
def Flag.set (flags : FmtFlags) : Flag → FmtFlags
  | .sharp => { flags with sharpflag := true }
  | .zero => { flags with zeroflag := true }
  | .plus => { flags with sign := true }
  | .space => { flags with spaceflag := true }

/-- What it does with a size. -/
def Size.set (flags : FmtFlags) (_ : Size) : FmtFlags :=
  { flags with longflag := true }

theorem step_flag {p : Printer} (inside : p.flags.inFormat = true) (flag : Flag)
    (here : p.mem p.fmt = flag.byte) (fuel : Nat) :
    p.step args fuel = some { p with flags := flag.set p.flags } := by
  rw [Printer.step, if_pos inside, Printer.convert]
  simp only [here]
  cases flag <;> rfl

theorem step_size {p : Printer} (inside : p.flags.inFormat = true) (size : Size)
    (here : p.mem p.fmt = size.byte) (fuel : Nat) :
    p.step args fuel = some { p with flags := size.set p.flags } := by
  rw [Printer.step, if_pos inside, Printer.convert]
  simp only [here]
  cases size <;> rfl

/-- Characters that set something in `flags`, one after the other. -/
theorem leads_marks {Mark : Type} {byte : Mark → Byte}
    {set : Mark → FmtFlags → FmtFlags} (nonzero : ∀ mark, byte mark ≠ 0)
    (stays : ∀ mark flags, (set mark flags).inFormat = flags.inFormat)
    (steps : ∀ (p : Printer) (mark : Mark), p.flags.inFormat = true →
      p.mem p.fmt = byte mark → ∀ fuel,
        p.step args fuel = some { p with flags := set mark p.flags })
    (marks : List Mark) {p : Printer} (inside : p.flags.inFormat = true)
    (spells : Spells p.mem p.fmt (marks.map byte)) :
    Leads args room marks.length p
      { p with
        fmt := p.fmt + marks.length
        flags := marks.foldl (fun flags mark => set mark flags) p.flags } := by
  induction marks generalizing p with
  | nil => exact fun _ _ => rfl
  | cons mark marks induction =>
      have here : p.mem p.fmt = byte mark := spells.head
      have first := Leads.step (here ▸ nonzero mark)
        fun fuel (_ : room ≤ fuel) => steps p mark inside here fuel
      have rest := @induction
        { p with flags := set mark p.flags, fmt := p.fmt + 1 }
        ((stays mark p.flags).trans inside) spells.tail
      have both := first.trans rest
      rwa [Nat.add_comm 1, Nat.add_assoc p.fmt, Nat.add_comm 1] at both

theorem foldl_flag (marks : List Flag) (flags : FmtFlags) :
    marks.foldl (fun flags mark => mark.set flags) flags =
      { flags with
        sharpflag := flags.sharpflag || decide (.sharp ∈ marks)
        zeroflag := flags.zeroflag || decide (.zero ∈ marks)
        spaceflag := flags.spaceflag || decide (.space ∈ marks)
        sign := flags.sign || decide (.plus ∈ marks) } := by
  induction marks generalizing flags with
  | nil => simp
  | cons mark marks induction =>
      rw [List.foldl_cons, induction]
      cases mark <;> simp [Flag.set]

theorem foldl_size (marks : List Size) (flags : FmtFlags) :
    marks.foldl (fun flags mark => mark.set flags) flags =
      { flags with longflag := flags.longflag || decide (marks ≠ []) } := by
  induction marks generalizing flags with
  | nil => simp
  | cons mark marks induction =>
      rw [List.foldl_cons, induction]
      simp [Size.set]

/-! ### Width and precision -/

/-- The character of a digit that is not `0` starts a width. -/
theorem width_char : ∀ digit < 10, 0 < digit →
    BitVec.ofNat 8 (digit + 0x30) ≠ byteOf '#' ∧
    BitVec.ofNat 8 (digit + 0x30) ≠ byteOf '0' ∧
    ¬ (BitVec.ofNat 8 (digit + 0x30) = byteOf 'l' ∨
      BitVec.ofNat 8 (digit + 0x30) = byteOf 'z' ∨
      BitVec.ofNat 8 (digit + 0x30) = byteOf 't' ∨
      BitVec.ofNat 8 (digit + 0x30) = byteOf 'j') ∧
    BitVec.ofNat 8 (digit + 0x30) ≠ byteOf '+' ∧
    BitVec.ofNat 8 (digit + 0x30) ≠ byteOf ' ' ∧
    BitVec.ofNat 8 (digit + 0x30) ≠ byteOf '*' ∧
    byteOf '1' ≤ BitVec.ofNat 8 (digit + 0x30) ∧
    BitVec.ofNat 8 (digit + 0x30) ≤ byteOf '9' := by
  decide

theorem step_width {p : Printer} {amount : Amount} {next : Byte} {fuel : Nat}
    (inside : p.flags.inFormat = true)
    (spells : Spells p.mem p.fmt (amount.text ++ [next]))
    (stops : Stops 10 next) (passes : Passes args p.taken amount.slots)
    (valid : ∀ value, amount = .number value → 0 < value ∧ value < 2 ^ 31)
    (enough : amount.text.length < fuel) :
    p.step args fuel = some
      { p with
        fmt := p.fmt + amount.text.length - 1
        flags.width := amount.value
        taken := p.taken + amount.slots.length } := by
  cases amount with
  | star slot =>
      have here : p.mem p.fmt = byteOf '*' := spells.head
      have taken : args p.taken = slot := passes.1
      rw [Printer.step, if_pos inside, Printer.convert]
      simp only [here, Printer.vaArg, taken]
      rfl
  | number value =>
      obtain ⟨positive, small⟩ := valid value rfl
      have read := strtol_number spells stops small enough
      obtain ⟨digit, rest, text, bounds⟩ := decimalText_cons positive
        (show value < 10 ^ 20 by omega)
      have here : p.mem p.fmt = BitVec.ofNat 8 (digit + 0x30) := by
        rw [Amount.text, text] at spells
        exact spells.head
      obtain ⟨sharp, zero, size, plus, space, star, range⟩ :=
        width_char digit bounds.2 bounds.1
      rw [Printer.step, if_pos inside, Printer.convert]
      simp only [here, sharp, zero, size, plus, space, star, range, and_self,
        if_true, if_false, read, Option.bind_eq_bind, Option.bind_some,
        Option.pure_def, signed_int small]
      rfl

/-- The character of a digit is no `NUL` and no star. -/
theorem digit_char : ∀ digit < 10, BitVec.ofNat 8 (digit + 0x30) ≠ (0 : Byte) ∧
    BitVec.ofNat 8 (digit + 0x30) ≠ byteOf '*' := by
  decide

theorem Amount.spells_ne_zero {mem : Bytes} {start : Nat} {amount : Amount}
    {rest : List Byte} (spells : Spells mem start (amount.text ++ rest)) :
    mem start ≠ 0 := by
  cases amount with
  | star slot =>
      have here : mem start = byteOf '*' := spells.head
      rw [here]
      decide
  | number value =>
      obtain ⟨digit, more, text, small⟩ := decimalText_head value
      rw [Amount.text, text] at spells
      have here : mem start = BitVec.ofNat 8 (digit + 0x30) := spells.head
      rw [here]
      exact (digit_char digit small).1

theorem Amount.text_pos (amount : Amount) : 0 < amount.text.length := by
  cases amount with
  | star slot => exact Nat.one_pos
  | number value => exact List.length_pos_iff.2 (decimalText_ne_nil value)

theorem step_prec {p : Printer} {amount : Amount} {next : Byte} {fuel : Nat}
    (inside : p.flags.inFormat = true)
    (spells : Spells p.mem p.fmt (byteOf '.' :: amount.text ++ [next]))
    (stops : Stops 10 next) (passes : Passes args p.taken amount.slots)
    (valid : ∀ value, amount = .number value → value < 2 ^ 31)
    (enough : amount.text.length < fuel) :
    p.step args fuel = some
      { p with
        fmt := p.fmt + amount.text.length
        flags.prec := amount.value
        taken := p.taken + amount.slots.length } := by
  have point : p.mem p.fmt = byteOf '.' := spells.head
  have dotted : p.step args fuel =
      if p.mem (p.fmt + 1) = byteOf '*' then
        some
          { p with
            fmt := p.fmt + 1
            flags.prec := signed 32 (args p.taken)
            taken := p.taken + 1 }
      else
        (strtol p.mem fuel (p.fmt + 1) 10).map fun result =>
          { p with
            fmt := result.2 - 1
            flags.prec := signed 32 result.1 } := by
    rw [Printer.step, if_pos inside, Printer.convert]
    simp only [point]
    cases strtol p.mem fuel (p.fmt + 1) 10 <;> rfl
  rw [dotted]
  cases amount with
  | star slot =>
      have here : p.mem (p.fmt + 1) = byteOf '*' := spells.tail.head
      have taken : args p.taken = slot := passes.1
      rw [if_pos here, taken]
      rfl
  | number value =>
      have small := valid value rfl
      have read := strtol_number spells.tail stops small enough
      obtain ⟨digit, rest, text, bound⟩ := decimalText_head value
      have here : p.mem (p.fmt + 1) = BitVec.ofNat 8 (digit + 0x30) := by
        have shifted := spells.tail
        rw [Amount.text, text] at shifted
        exact shifted.head
      have noStar : ¬ p.mem (p.fmt + 1) = byteOf '*' :=
        here ▸ (digit_char digit bound).2
      have place : p.fmt + 1 + (decimalText value).length - 1 =
          p.fmt + (decimalText value).length := by
        omega
      rw [if_neg noStar, read, Option.map_some, signed_int small, place]
      rfl

theorem leads_width {p : Printer} {amount : Amount} {next : Byte}
    (inside : p.flags.inFormat = true)
    (spells : Spells p.mem p.fmt (amount.text ++ [next]))
    (stops : Stops 10 next) (passes : Passes args p.taken amount.slots)
    (valid : ∀ value, amount = .number value → 0 < value ∧ value < 2 ^ 31)
    (enough : amount.text.length < room) :
    Leads args room 1 p
      { p with
        fmt := p.fmt + amount.text.length
        flags.width := amount.value
        taken := p.taken + amount.slots.length } := by
  have one := Leads.step (Amount.spells_ne_zero spells)
    fun fuel (more : room ≤ fuel) =>
      step_width inside spells stops passes valid (Nat.lt_of_lt_of_le enough more)
  have place : p.fmt + amount.text.length - 1 + 1 =
      p.fmt + amount.text.length := by
    have := amount.text_pos
    omega
  simpa only [place] using one

theorem leads_prec {p : Printer} {amount : Amount} {next : Byte}
    (inside : p.flags.inFormat = true)
    (spells : Spells p.mem p.fmt (byteOf '.' :: amount.text ++ [next]))
    (stops : Stops 10 next) (passes : Passes args p.taken amount.slots)
    (valid : ∀ value, amount = .number value → value < 2 ^ 31)
    (enough : amount.text.length < room) :
    Leads args room 1 p
      { p with
        fmt := p.fmt + (amount.text.length + 1)
        flags.prec := amount.value
        taken := p.taken + amount.slots.length } := by
  have point : p.mem p.fmt = byteOf '.' := spells.head
  have nonzero : p.mem p.fmt ≠ 0 := by
    rw [point]
    decide
  exact Leads.step nonzero fun fuel (more : room ≤ fuel) =>
    step_prec inside spells stops passes valid (Nat.lt_of_lt_of_le enough more)

/-! ### Conversions -/

theorem cstring_spells {mem : Bytes} {start fuel : Nat} {text : List Byte}
    (spells : Spells mem start (text ++ [0])) (nonzero : ∀ c ∈ text, c ≠ 0)
    (enough : text.length < fuel) :
    Printer.cstring mem fuel start = some text := by
  induction text generalizing start fuel with
  | nil =>
      obtain ⟨fuel, rfl⟩ : ∃ less, fuel = less + 1 := ⟨fuel - 1, by omega⟩
      have here : mem start = 0 := spells.head
      rw [Printer.cstring, if_pos here]
  | cons c text induction =>
      obtain ⟨fuel, rfl⟩ : ∃ less, fuel = less + 1 := ⟨fuel - 1, by omega⟩
      have here : mem start = c := spells.head
      have rest := induction spells.tail
        (fun c member => nonzero c (List.mem_cons_of_mem _ member))
        (Nat.succ_lt_succ_iff.1 enough)
      rw [Printer.cstring, here, if_neg (nonzero c List.mem_cons_self), rest]
      rfl

/-- The conversion ends with its characters printed and its argument taken. -/
theorem step_conversion (p : Printer) (conversion : Conversion)
    (inside : p.flags.inFormat = true)
    (here : p.mem p.fmt = conversion.byte)
    (passes : Passes args p.taken conversion.slots)
    (stored : ∀ slot text, conversion = .string slot text → slot ≠ 0 →
      Spells p.mem slot (text ++ [0]) ∧ ∀ c ∈ text, c ≠ 0)
    (enough : (conversion.render p.flags).length < room) :
    ∃ prec, ∀ fuel, room ≤ fuel → p.step args fuel = some
      { p with
        flags := { p.flags with inFormat := false, prec }
        written := p.written + (conversion.render p.flags).length
        taken := p.taken + conversion.slots.length
        out := p.out ++ conversion.render p.flags } := by
  cases conversion with
  | hex letter slot =>
      have taken : args p.taken = slot := passes.1
      refine ⟨(printHex (if letter.byte = byteOf 'p' ∨ p.flags.longflag then
        slot % 2 ^ 64 else slot % 2 ^ 32) letter.byte p.flags).2,
        fun fuel _ => ?_⟩
      rw [Printer.step, if_pos inside, Printer.convert]
      simp only [here, Printer.vaArg, taken]
      cases letter <;> rfl
  | dec letter slot =>
      have taken : args p.taken = slot := passes.1
      refine ⟨(printDecInt (signed (if p.flags.longflag then 64 else 32) slot %
        2 ^ 64).toNat (letter ≠ .u) p.flags).2, fun fuel _ => ?_⟩
      rw [Printer.step, if_pos inside, Printer.convert]
      simp only [here, Printer.vaArg, taken]
      cases letter <;> rfl
  | string slot text =>
      have taken : args p.taken = slot := passes.1
      refine ⟨p.flags.prec, fun fuel more => ?_⟩
      have prints : p.step args fuel =
          if slot = 0 then
            some (Printer.finish
              ({ p with taken := p.taken + 1 }.print (literal "(null)")))
          else
            (Printer.cstring p.mem fuel slot).map fun bytes =>
              Printer.finish ({ p with taken := p.taken + 1 }.print bytes) := by
        rw [Printer.step, if_pos inside, Printer.convert]
        simp only [here, Printer.vaArg, taken]
        rfl
      rw [prints]
      by_cases null : slot = 0
      · rw [if_pos null]
        simp only [Conversion.render, null, if_true]
        rfl
      · obtain ⟨spells, nonzero⟩ := stored slot text rfl null
        simp only [Conversion.render, null, if_false] at enough ⊢
        rw [cstring_spells spells nonzero (Nat.lt_of_lt_of_le enough more)]
        rfl
  | char slot =>
      have taken : args p.taken = slot := passes.1
      refine ⟨p.flags.prec, fun fuel _ => ?_⟩
      rw [Printer.step, if_pos inside, Printer.convert]
      simp only [here, Printer.vaArg, taken]
      rfl
  | percent =>
      refine ⟨p.flags.prec, fun fuel _ => ?_⟩
      rw [Printer.step, if_pos inside, Printer.convert]
      simp only [here]
      rfl

/-- The letter of a conversion is no `NUL` and no digit. -/
theorem Conversion.byte_stops (conversion : Conversion) :
    conversion.byte ≠ 0 ∧ Stops 10 conversion.byte := by
  cases conversion with
  | hex letter slot =>
      rw [Conversion.byte]
      cases letter <;> decide
  | dec letter slot =>
      rw [Conversion.byte]
      cases letter <;> decide
  | string slot text =>
      rw [Conversion.byte]
      decide
  | char slot =>
      rw [Conversion.byte]
      decide
  | percent =>
      rw [Conversion.byte]
      decide

/-! ### A whole specification -/

/-- No digit follows a width or a precision. -/
theorem sizes_stop (sizes : List Size) (conversion : Conversion) :
    ∃ next rest, sizes.map Size.byte ++ [conversion.byte] = next :: rest ∧
      Stops 10 next := by
  cases sizes with
  | nil => exact ⟨_, _, rfl, conversion.byte_stops.2⟩
  | cons size rest =>
      refine ⟨size.byte, _, rfl, ?_⟩
      cases size <;> decide

namespace Directive

variable {d : Directive}

theorem prec_stops (d : Directive) :
    ∃ next rest, d.precText ++ (d.sizes.map Size.byte ++ [d.conversion.byte]) =
      next :: rest ∧ Stops 10 next := by
  rw [precText]
  cases d.prec with
  | none => exact sizes_stop d.sizes d.conversion
  | some amount => exact ⟨byteOf '.', _, rfl, by decide⟩

theorem leads_widthText (p : Printer) {next : Byte} {rest : List Byte}
    (inside : p.flags.inFormat = true)
    (spells : Spells p.mem p.fmt (d.widthText ++ next :: rest))
    (stops : Stops 10 next)
    (passes : Passes args p.taken ((d.width.map Amount.slots).getD []))
    (enough : d.widthText.length < room) :
    ∃ count ≤ d.widthText.length, Leads args room count p
      { p with
        fmt := p.fmt + d.widthText.length
        flags.width := (d.width.map Amount.value).getD p.flags.width
        taken := p.taken + ((d.width.map Amount.slots).getD []).length } := by
  have valid := d.width_pos
  have small := d.numbers_lt
  rw [widthText] at *
  cases width : d.width with
  | none => exact ⟨0, Nat.zero_le _, fun _ _ => rfl⟩
  | some amount =>
      rw [width] at spells passes enough valid small
      simp only [Option.map_some, Option.getD_some] at *
      have front : Spells p.mem p.fmt (amount.text ++ [next]) := by
        rw [List.append_cons] at spells
        exact spells.left
      exact ⟨1, amount.text_pos, leads_width inside front stops passes
        (fun value number => ⟨valid value (congrArg some number),
          small value (.inl (congrArg some number))⟩) enough⟩

theorem leads_precText (p : Printer) {next : Byte} {rest : List Byte}
    (inside : p.flags.inFormat = true)
    (spells : Spells p.mem p.fmt (d.precText ++ next :: rest))
    (stops : Stops 10 next)
    (passes : Passes args p.taken ((d.prec.map Amount.slots).getD []))
    (enough : d.precText.length < room) :
    ∃ count ≤ d.precText.length, Leads args room count p
      { p with
        fmt := p.fmt + d.precText.length
        flags.prec := (d.prec.map Amount.value).getD p.flags.prec
        taken := p.taken + ((d.prec.map Amount.slots).getD []).length } := by
  have small := d.numbers_lt
  rw [precText] at *
  cases prec : d.prec with
  | none => exact ⟨0, Nat.zero_le _, fun _ _ => rfl⟩
  | some amount =>
      rw [prec] at spells passes enough small
      simp only [Option.map_some, Option.getD_some] at *
      have front : Spells p.mem p.fmt (byteOf '.' :: amount.text ++ [next]) := by
        rw [List.append_cons] at spells
        exact spells.left
      rw [List.length_cons] at enough
      exact ⟨1, Nat.succ_pos _, leads_prec inside front stops passes
        (fun value number => small value (.inr (congrArg some number)))
        (by omega)⟩

/-- The `flags` behind the flag characters. -/
def markedFlags (d : Directive) : FmtFlags where
  inFormat := true
  longflag := false
  sharpflag := .sharp ∈ d.flags
  zeroflag := .zero ∈ d.flags
  spaceflag := .space ∈ d.flags
  sign := .plus ∈ d.flags
  width := 0
  prec := -1

theorem leads_flags (p : Printer) (outside : p.flags.inFormat = false)
    (spells : Spells p.mem p.fmt (byteOf '%' :: d.flags.map Flag.byte)) :
    Leads args room (1 + d.flags.length) p
      { p with
        fmt := p.fmt + 1 + d.flags.length
        flags := d.markedFlags } := by
  have percent : p.mem p.fmt = byteOf '%' := spells.head
  have opens (fuel : Nat) (_ : room ≤ fuel) : p.step args fuel = some
      { p with
        flags := { FmtFlags.cleared with inFormat := true, prec := -1 } } := by
    rw [Printer.step, if_neg (by rw [outside]; decide), if_pos percent]
  have start := Leads.step (by rw [percent]; decide) opens
  have marked := @leads_marks args room Flag Flag.byte
    (fun mark flags => mark.set flags) (by intro mark; cases mark <;> decide)
    (by intro mark flags; cases mark <;> rfl)
    (fun p mark inside here fuel => step_flag inside mark here fuel) d.flags
    { p with
      fmt := p.fmt + 1
      flags := { FmtFlags.cleared with inFormat := true, prec := -1 } }
    rfl spells.tail
  rw [foldl_flag] at marked
  have both := start.trans marked
  simp only [FmtFlags.cleared, Bool.false_or] at both
  exact both

theorem leads_sizes (p : Printer) (inside : p.flags.inFormat = true)
    (spells : Spells p.mem p.fmt (d.sizes.map Size.byte)) :
    Leads args room d.sizes.length p
      { p with
        fmt := p.fmt + d.sizes.length
        flags.longflag := p.flags.longflag || decide (d.sizes ≠ []) } := by
  have marked := @leads_marks args room Size Size.byte
    (fun mark flags => mark.set flags) (by intro mark; cases mark <;> decide)
    (fun _ _ => rfl)
    (fun p mark inside here fuel => step_size inside mark here fuel) d.sizes
    p inside spells
  rwa [foldl_size] at marked

/-- From the `%` to the letter, the loop does what the specification says. -/
theorem leads (d : Directive) (p : Printer) (outside : p.flags.inFormat = false)
    (spells : Spells p.mem p.fmt d.text)
    (passes : Passes args p.taken d.slots) (stored : d.Stored p.mem)
    (characters : d.text.length < room) (printed : d.render.length < room) :
    ∃ count ≤ d.text.length, ∃ flags : FmtFlags, flags.inFormat = false ∧
      Leads args room count p
        { p with
          fmt := p.fmt + d.text.length
          flags
          written := p.written + d.render.length
          taken := p.taken + d.slots.length
          out := p.out ++ d.render } := by
  obtain ⟨widthPasses, restPasses⟩ := passes_append.1 passes
  obtain ⟨precPasses, lastPasses⟩ := passes_append.1 restPasses
  obtain ⟨next, rest, behindWidth, nextStops⟩ := d.prec_stops
  obtain ⟨first, others, behindPrec, firstStops⟩ :=
    sizes_stop d.sizes d.conversion
  have lengths : d.text.length = 1 + (d.flags.length + (d.widthText.length +
      (d.precText.length + (d.sizes.length + 1)))) := by
    simp only [text, List.length_cons, List.length_append, List.length_map,
      List.length_nil]
    omega
  have marked : Leads args room (1 + d.flags.length) p _ :=
    leads_flags p outside (by
      rw [text, ← List.cons_append] at spells
      exact spells.left)
  -- The width.
  have widthSpells := spells.tail.right
  rw [List.length_map] at widthSpells
  have precSpells := widthSpells.right
  rw [behindWidth] at widthSpells
  obtain ⟨widthCount, widthLe, widened⟩ := leads_widthText
    { p with
      fmt := p.fmt + 1 + d.flags.length
      flags := d.markedFlags } rfl widthSpells nextStops widthPasses
    (show _ < room by omega)
  -- The precision.
  have sizesSpells := precSpells.right
  rw [behindPrec] at precSpells
  obtain ⟨precCount, precLe, precise⟩ := leads_precText
    { p with
      fmt := p.fmt + 1 + d.flags.length + d.widthText.length
      flags := { d.markedFlags with
        width := (d.width.map Amount.value).getD 0 }
      taken := p.taken + ((d.width.map Amount.slots).getD []).length }
    rfl precSpells firstStops precPasses (show _ < room by omega)
  -- The sizes and the letter.
  have sized : Leads args room d.sizes.length _ _ := leads_sizes
    { p with
      fmt := p.fmt + 1 + d.flags.length + d.widthText.length +
        d.precText.length
      flags := { d.markedFlags with
        width := (d.width.map Amount.value).getD 0
        prec := (d.prec.map Amount.value).getD (-1) }
      taken := p.taken + ((d.width.map Amount.slots).getD []).length +
        ((d.prec.map Amount.slots).getD []).length }
    rfl sizesSpells.left
  have letter := sizesSpells.right.head
  rw [List.length_map] at letter
  obtain ⟨prec, converts⟩ := step_conversion
    { p with
      fmt := p.fmt + 1 + d.flags.length + d.widthText.length +
        d.precText.length + d.sizes.length
      flags := d.fmtFlags
      taken := p.taken + ((d.width.map Amount.slots).getD []).length +
        ((d.prec.map Amount.slots).getD []).length }
    d.conversion rfl letter lastPasses stored printed
  have last := Leads.step (by rw [letter]; exact d.conversion.byte_stops.1)
    converts
  have whole := marked.trans (widened.trans (precise.trans (sized.trans last)))
  have place : p.fmt + d.text.length = p.fmt + 1 + d.flags.length +
      d.widthText.length + d.precText.length + d.sizes.length + 1 := by
    omega
  have arguments : p.taken + d.slots.length =
      p.taken + ((d.width.map Amount.slots).getD []).length +
        ((d.prec.map Amount.slots).getD []).length +
        d.conversion.slots.length := by
    rw [slots, List.length_append, List.length_append]
    omega
  refine ⟨1 + d.flags.length + (widthCount + (precCount +
    (d.sizes.length + 1))), by omega,
    { d.fmtFlags with inFormat := false, prec }, rfl, ?_⟩
  rw [place, arguments]
  exact whole

end Directive

/-! ### Whole formats -/

namespace Piece

theorem leads (piece : Piece) (p : Printer) (outside : p.flags.inFormat = false)
    (spells : Spells p.mem p.fmt piece.text)
    (passes : Passes args p.taken piece.slots) (stored : piece.Stored p.mem)
    (characters : piece.text.length < room)
    (printed : piece.render.length < room) :
    ∃ count ≤ piece.text.length, ∃ flags : FmtFlags, flags.inFormat = false ∧
      Leads args room count p
        { p with
          fmt := p.fmt + piece.text.length
          flags
          written := p.written + piece.render.length
          taken := p.taken + piece.slots.length
          out := p.out ++ piece.render } := by
  cases piece with
  | directive d =>
      exact d.leads p outside spells passes stored characters printed
  | plain c nonzero ordinary =>
      have here : p.mem p.fmt = c := spells.head
      have prints (fuel : Nat) (_ : room ≤ fuel) :
          p.step args fuel = some (p.print [c]) := by
        rw [Printer.step, if_neg (by rw [outside]; decide), here,
          if_neg ordinary]
      exact ⟨1, Nat.le_refl 1, p.flags, outside,
        Leads.step (by rwa [here]) prints⟩

/-- A format is printed piece by piece. -/
theorem leads_all (pieces : List Piece) (p : Printer)
    (outside : p.flags.inFormat = false)
    (spells : Spells p.mem p.fmt (pieces.flatMap text))
    (passes : Passes args p.taken (pieces.flatMap slots))
    (stored : ∀ piece ∈ pieces, piece.Stored p.mem)
    (characters : (pieces.flatMap text).length < room)
    (printed : (pieces.flatMap render).length < room) :
    ∃ count ≤ (pieces.flatMap text).length,
      ∃ flags : FmtFlags, flags.inFormat = false ∧
        Leads args room count p
          { p with
            fmt := p.fmt + (pieces.flatMap text).length
            flags
            written := p.written + (pieces.flatMap render).length
            taken := p.taken + (pieces.flatMap slots).length
            out := p.out ++ pieces.flatMap render } := by
  induction pieces generalizing p with
  | nil =>
      refine ⟨0, Nat.le_refl 0, p.flags, outside, fun fuel _ => ?_⟩
      simp
  | cons piece pieces induction =>
      simp only [List.flatMap_cons, List.length_append] at *
      obtain ⟨herePasses, restPasses⟩ := passes_append.1 passes
      obtain ⟨count, countLe, flags, closed, here⟩ :=
        @leads args room piece p outside spells.left herePasses
          (stored piece List.mem_cons_self) (by omega) (by omega)
      obtain ⟨others, othersLe, last, lastClosed, rest⟩ := induction
        { p with
          fmt := p.fmt + piece.text.length
          flags
          written := p.written + piece.render.length
          taken := p.taken + piece.slots.length
          out := p.out ++ piece.render }
        closed spells.right restPasses
        (fun piece member => stored piece (List.mem_cons_of_mem _ member))
        (by omega) (by omega)
      refine ⟨count + others, by omega, last, lastClosed, ?_⟩
      have both := here.trans rest
      simp only [Nat.add_assoc, Int.add_assoc, List.append_assoc] at both
      simpa only [Nat.cast_add] using both

end Piece

end Loop

/--
`vprintfmt` of a format made of these pieces, for their arguments and with
their strings in memory: it prints what the pieces mean, one after the other,
returns the number of characters, which has to be an `int`, and takes every
argument once.
-/
theorem printk_renders {args : Nat → Nat} {mem : Bytes} {fmt fuel : Nat}
    {pieces : List Piece} (out : List Byte)
    (spells : Spells mem fmt (pieces.flatMap Piece.text ++ [0]))
    (passes : Passes args 0 (pieces.flatMap Piece.slots))
    (stored : ∀ piece ∈ pieces, piece.Stored mem)
    (short : (pieces.flatMap Piece.render).length < 2 ^ 31)
    (enough : 2 * (pieces.flatMap Piece.text).length +
      (pieces.flatMap Piece.render).length + 1 < fuel) :
    ∃ p, printk args fuel fmt mem out = some p ∧
      p.out = out ++ pieces.flatMap Piece.render ∧
      p.written = (pieces.flatMap Piece.render).length ∧
      wrapInt p.written = p.written ∧
      p.taken = (pieces.flatMap Piece.slots).length ∧ p.mem = mem := by
  obtain ⟨count, countLe, flags, _, leads⟩ := @Piece.leads_all args
    ((pieces.flatMap Piece.text).length +
      (pieces.flatMap Piece.render).length + 1) pieces
    { fmt, flags := .cleared, written := 0, taken := 0, mem, out } rfl
    spells.left passes stored (by omega) (by omega)
  have terminated : mem (fmt + (pieces.flatMap Piece.text).length) = 0 :=
    spells.right.head
  obtain ⟨rest, rfl⟩ : ∃ rest, fuel = rest + 1 + count :=
    ⟨fuel - count - 1, by omega⟩
  refine ⟨
    { fmt := fmt + (pieces.flatMap Piece.text).length
      flags
      written := 0 + (pieces.flatMap Piece.render).length
      taken := 0 + (pieces.flatMap Piece.slots).length
      mem
      out := out ++ pieces.flatMap Piece.render },
    ?_, rfl, Int.zero_add _, ?_, Nat.zero_add _, rfl⟩
  · rw [printk, leads (rest + 1) (by omega), Printer.loop, if_pos terminated]
  · dsimp only
    rw [Int.zero_add, wrapInt_of_fits (by omega) (by omega)]

/-! ## A format with two conversions -/

namespace PidFormat

/-- `"<%05ld %s>"` at address `0`, and a string at address `32`. -/
def mem : Bytes := fun address =>
  if address < 32 then (literal "<%05ld %s>").getD address 0
  else (literal "up").getD (address - 32) 0

theorem width_pos (value : Nat) (number : some (.number 5) =
    some (Amount.number value)) : 0 < value := by
  cases number
  decide

theorem numbers_lt (value : Nat) (number : some (.number 5) =
    some (Amount.number value) ∨ none = some (Amount.number value)) :
    value < 2 ^ 31 := by
  rcases number with number | number
  · cases number
    decide
  · cases number

theorem none_pos (value : Nat) (number : none = some (Amount.number value)) :
    0 < value := by
  cases number

theorem none_lt (value : Nat) (number : none = some (Amount.number value) ∨
    none = some (Amount.number value)) : value < 2 ^ 31 := by
  rcases number with number | number <;> cases number

/-- `%05ld` of `-7`. -/
def number : Directive where
  flags := [.zero]
  width := some (.number 5)
  prec := none
  sizes := [.l]
  conversion := .dec .d (2 ^ 64 - 7)
  width_pos := width_pos
  numbers_lt := numbers_lt

/-- `%s` of the string. -/
def string : Directive where
  flags := []
  width := none
  prec := none
  sizes := []
  conversion := .string 32 (literal "up")
  width_pos := none_pos
  numbers_lt := none_lt

theorem plain : ∀ c ∈ literal "< >", c ≠ 0 ∧ c ≠ byteOf '%' := by
  decide

def pieces : List Piece :=
  [.plain (byteOf '<') (plain _ (.head _)).1 (plain _ (.head _)).2,
    .directive number,
    .plain (byteOf ' ') (plain _ (.tail _ (.head _))).1
      (plain _ (.tail _ (.head _))).2,
    .directive string,
    .plain (byteOf '>') (plain _ (.tail _ (.tail _ (.head _)))).1
      (plain _ (.tail _ (.tail _ (.head _)))).2]

def args (index : Nat) : Nat :=
  if index = 0 then 2 ^ 64 - 7 else 32

theorem stored : ∀ piece ∈ pieces, piece.Stored mem := by
  intro piece member
  simp only [pieces, List.mem_cons, List.not_mem_nil, or_false] at member
  rcases member with rfl | rfl | rfl | rfl | rfl
  · trivial
  · rintro slot text ⟨⟩
  · trivial
  · rintro slot text ⟨⟩ -
    exact ⟨by unfold Spells; decide, by decide⟩
  · trivial

end PidFormat

open PidFormat in
/-- The format is printed as `"<-0007 up>"`. -/
theorem printk_renders_pid :
    pieces.flatMap Piece.render = literal "<-0007 up>" ∧
    ∃ p, printk args 64 0 mem [] = some p ∧
      p.out = [] ++ pieces.flatMap Piece.render ∧
      p.written = (pieces.flatMap Piece.render).length ∧
      wrapInt p.written = p.written ∧
      p.taken = (pieces.flatMap Piece.slots).length ∧ p.mem = mem :=
  ⟨by decide +kernel,
    printk_renders [] (by unfold Spells; decide +kernel)
      ⟨by decide, by decide, trivial⟩ stored (by decide +kernel)
      (by decide +kernel)⟩

end TinyRiscvOs.Kernel
