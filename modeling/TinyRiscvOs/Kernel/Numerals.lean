import TinyRiscvOs.Kernel.Printk
import TinyRiscvOs.Lib.Scan
import Mathlib.Data.Int.ModEq
import Mathlib.Data.List.DropRight
import Mathlib.Data.List.Forall2

/-!
# Numbers as text

What `strtol` reads and what `print_dec_int` and the hexadecimal conversions
print.  A numeral is given by the values of its digits.  Every number that is
printed, whatever the flags, width and precision, is read back by `strtol`.
-/

namespace TinyRiscvOs.Kernel

open TinyRiscvOs.Lib TinyRiscvOs.Lib.Bytes

/-! ## Conversion to a signed type -/

section Signed

variable {bits : Nat} {a b : Int}

theorem signed_congr (same : a % 2 ^ bits = b % 2 ^ bits) :
    signed bits a = signed bits b := by
  rw [signed, signed, same]

theorem signed_emod (bits : Nat) (a : Int) :
    signed bits a % 2 ^ bits = a % 2 ^ bits := by
  rw [signed]
  split
  · exact Int.emod_emod _ _
  · rw [Int.sub_emod_right, Int.emod_emod]

/-- The accumulator of `strtol` may be converted once at the end. -/
theorem signed_step (bits : Nat) (a base digit : Int) :
    signed bits (signed bits a * base + digit) =
      signed bits (a * base + digit) := by
  have same : signed bits a ≡ a [ZMOD 2 ^ bits] := signed_emod bits a
  exact signed_congr ((same.mul_right base).add_right digit)

theorem signed_neg (bits : Nat) (a : Int) :
    signed bits (-signed bits a) = signed bits (-a) :=
  signed_congr (Int.ModEq.neg (signed_emod bits a : signed bits a ≡ a [ZMOD _]))

theorem signed_of_fits (positive : 0 < bits) (lower : -2 ^ (bits - 1) ≤ a)
    (upper : a < 2 ^ (bits - 1)) : signed bits a = a := by
  have double : (2 : Int) ^ bits = 2 * 2 ^ (bits - 1) := by
    rw [← pow_succ', Nat.sub_add_cancel positive]
  rw [signed, double]
  generalize (2 : Int) ^ (bits - 1) = half at *
  rcases Int.lt_or_le a 0 with negative | nonneg
  · have low : a % (2 * half) = a + 2 * half := by
      rw [← Int.add_emod_right]
      exact Int.emod_eq_of_lt (by omega) (by omega)
    rw [low, if_neg (by omega)]
    omega
  · rw [Int.emod_eq_of_lt nonneg (by omega), if_pos upper]

end Signed

/-! ## Numerals -/

/-- The characters are digits with these values. -/
def IsNumeral (base : Nat) (text : List Byte) (values : List Nat) : Prop :=
  List.Forall₂ (fun c value => digitOf c = some value ∧ value < base) text values

/-- The number that digits make, the first one counting most. -/
def numeralValue (base : Nat) (values : List Nat) : Nat :=
  values.foldl (fun ret digit => ret * base + digit) 0

/-- A character behind a numeral ends it. -/
def Stops (base : Nat) (c : Byte) : Prop :=
  ∀ digit, digitOf c = some digit → base ≤ digit

section Numeral

variable {base fuel p : Nat} {mem : Bytes} {text : List Byte}
    {values : List Nat} {last : Byte}

theorem numeralValue_append (base : Nat) (values : List Nat) (digit : Nat) :
    numeralValue base (values ++ [digit]) =
      numeralValue base values * base + digit := by
  rw [numeralValue, List.foldl_append]
  rfl

theorem numeralValue_zeros (base count : Nat) (values : List Nat) :
    numeralValue base (List.replicate count 0 ++ values) =
      numeralValue base values := by
  have zero : (List.replicate count 0).foldl
      (fun ret digit => ret * base + digit) 0 = 0 := by
    induction count with
    | zero => rfl
    | succ count induction =>
        rw [List.replicate_succ, List.foldl_cons, Nat.zero_mul]
        exact induction
  rw [numeralValue, List.foldl_append, zero]
  rfl

/-- `ret = ret * base + digit` in a `long`. -/
def accumulate (base : Nat) (ret : Int) (digit : Nat) : Int :=
  signed 64 (ret * base + digit)

/-- The wrapping accumulator ends at the wrapped number. -/
theorem foldl_signed (base : Nat) (values : List Nat) (ret : Nat) :
    values.foldl (accumulate base) (signed 64 ret) =
      signed 64 (values.foldl (fun ret digit => ret * base + digit) ret :
        Nat) := by
  induction values generalizing ret with
  | nil => rw [List.foldl_nil, List.foldl_nil]
  | cons digit rest induction =>
      have next : (ret : Int) * base + digit = (ret * base + digit : Nat) := by
        rw [Nat.cast_add, Nat.cast_mul]
      rw [List.foldl_cons, List.foldl_cons, accumulate, signed_step, next]
      exact induction _

theorem foldl_accumulate (base : Nat) (values : List Nat) :
    values.foldl (accumulate base) 0 = signed 64 (numeralValue base values) := by
  have zero : (0 : Int) = signed 64 (0 : Nat) := by decide
  rw [zero, foldl_signed]
  rfl

theorem strtolDigits_numeral (numeral : IsNumeral base text values)
    (spells : Spells mem p (text ++ [last])) (stops : Stops base last)
    (enough : text.length < fuel) (ret : Int) :
    strtolDigits mem base fuel p ret =
      some (values.foldl (accumulate base) ret, p + text.length) := by
  induction numeral generalizing p fuel ret with
  | nil =>
      obtain ⟨fuel, rfl⟩ : ∃ less, fuel = less + 1 := ⟨fuel - 1, by
        rw [List.length_nil] at enough
        omega⟩
      rw [strtolDigits, spells.head]
      cases digit : digitOf last with
      | none => rfl
      | some value =>
          dsimp only
          rw [if_pos (stops value digit)]
          rfl
  | cons head tail induction =>
      rename_i c value text values
      obtain ⟨fuel, rfl⟩ : ∃ less, fuel = less + 1 := ⟨fuel - 1, by
        rw [List.length_cons] at enough
        omega⟩
      rw [strtolDigits, spells.head, head.1]
      dsimp only
      rw [if_neg (Nat.not_le.2 head.2),
        induction spells.tail (Nat.succ_lt_succ_iff.1 enough),
        List.foldl_cons, accumulate, List.length_cons, Nat.add_assoc p,
        Nat.add_comm 1]

/-- The digits of a number that fits, the least one first, give it back. -/
theorem numeralValue_digits {num : Nat} (fits : num < base ^ fuel) :
    numeralValue base (digits base fuel num).reverse = num := by
  induction fuel generalizing num with
  | zero =>
      rw [Nat.pow_zero, Nat.lt_one_iff] at fits
      rw [fits]
      rfl
  | succ fuel induction =>
      have less : num / base < base ^ fuel :=
        Nat.div_lt_of_lt_mul (by rwa [← Nat.pow_succ'])
      have whole := Nat.div_add_mod' num base
      rw [digits, List.reverse_cons, numeralValue_append]
      split
      · rename_i none
        rw [none, Nat.zero_mul, Nat.zero_add] at whole
        rw [List.reverse_nil, whole]
        exact (congrArg (· + num) (Nat.zero_mul base)).trans (Nat.zero_add num)
      · rw [induction less, whole]

theorem digits_lt (positive : 0 < base) {num : Nat} :
    ∀ digit ∈ digits base fuel num, digit < base := by
  induction fuel generalizing num with
  | zero => exact fun _ member => absurd member List.not_mem_nil
  | succ fuel induction =>
      intro digit member
      rw [digits, List.mem_cons] at member
      rcases member with rfl | member
      · exact Nat.mod_lt _ positive
      · split at member
        · exact absurd member List.not_mem_nil
        · exact induction digit member

theorem digits_ne_nil (num : Nat) : digits base (fuel + 1) num ≠ [] :=
  List.cons_ne_nil _ _

end Numeral


/-! ## What `strtol` reads -/

/-- The sign in front of a number. -/
inductive SignChar where
  | none
  | plus
  | minus

namespace SignChar

/-- Its characters. -/
def text : SignChar → List Byte
  | .none => []
  | .plus => [byteOf '+']
  | .minus => [byteOf '-']

/-- A number with the sign. -/
def apply (value : Nat) : SignChar → Int
  | .minus => -value
  | _ => value

/-- `neg ? -ret : ret`. -/
def ofLong (ret : Int) : SignChar → Int
  | .minus => signed 64 (-ret)
  | _ => ret

end SignChar

section Reading

variable {base fuel start : Nat} {mem : Bytes} {blanks text : List Byte}
    {values : List Nat} {last : Byte}

theorem skipSpaces_eq (mem : Bytes) (fuel p : Nat) :
    skipSpaces mem fuel p = scanWhile isspace mem fuel p := by
  induction fuel generalizing p with
  | zero => rfl
  | succ fuel induction => rw [skipSpaces, scanWhile, induction]

/-- Digits are no blanks and no signs. -/
theorem digit_plain : ∀ c : Byte, digitOf c ≠ none →
    isspace c = false ∧ c ≠ byteOf '-' ∧ c ≠ byteOf '+' := by
  decide +kernel

theorem skipSpaces_blanks {c : Byte} {rest : List Byte}
    (spells : Spells mem start (blanks ++ c :: rest))
    (spaces : ∀ b ∈ blanks, isspace b = true) (stops : isspace c = false)
    (enough : blanks.length < fuel) :
    skipSpaces mem fuel start = some (start + blanks.length) := by
  have front : Spells mem start (blanks ++ [c]) := by
    rw [List.append_cons] at spells
    exact spells.left
  have all : blanks.takeWhile isspace = blanks :=
    List.takeWhile_eq_self_iff.2 spaces
  rw [skipSpaces_eq, scanWhile_terminated front stops, all, if_pos enough]

/-- The digits behind the sign, in the base that is given. -/
theorem strtol_digits (given : base ≠ 0) {p : Nat} {sign : SignChar} {c : Byte}
    {rest : List Byte} (skipped : skipSpaces mem fuel start = some p)
    (spells : Spells mem p (sign.text ++ c :: rest))
    (plain : c ≠ byteOf '-' ∧ c ≠ byteOf '+') {ret : Int} {stop : Nat}
    (read : strtolDigits mem base fuel (p + sign.text.length) 0 =
      some (ret, stop)) :
    strtol mem fuel start base =
      some (sign.ofLong ret, stop) := by
  cases sign with
  | none =>
      have first : mem p = c := spells.head
      simp only [SignChar.text, List.length_nil, Nat.add_zero] at read
      simp only [strtol, skipped, Option.bind_eq_bind, Option.bind_some, first,
        plain.1, plain.2, if_false, given, read, SignChar.ofLong,
        Option.pure_def, Bool.false_eq_true]
  | plus =>
      have first : mem p = byteOf '+' := spells.head
      have notMinus : byteOf '+' ≠ byteOf '-' := by decide
      simp only [SignChar.text, List.length_singleton] at read
      simp only [strtol, skipped, Option.bind_eq_bind, Option.bind_some, first,
        notMinus, if_true, if_false, given, read, SignChar.ofLong,
        Option.pure_def, Bool.false_eq_true]
  | minus =>
      have first : mem p = byteOf '-' := spells.head
      simp only [SignChar.text, List.length_singleton] at read
      simp only [strtol, skipped, Option.bind_eq_bind, Option.bind_some, first,
        if_true, if_false, given, read, SignChar.ofLong, Option.pure_def]

/-- `strtol` of blanks, a sign and digits, in the base that is given. -/
theorem strtol_numeral (given : base ≠ 0) (sign : SignChar)
    (spells : Spells mem start (blanks ++ (sign.text ++ (text ++ [last]))))
    (spaces : ∀ b ∈ blanks, isspace b = true)
    (numeral : IsNumeral base text values) (nonempty : text ≠ [])
    (stops : Stops base last)
    (enough : (blanks ++ (sign.text ++ text)).length < fuel) :
    strtol mem fuel start base =
      some (signed 64 (sign.apply (numeralValue base values)),
        start + (blanks ++ (sign.text ++ text)).length) := by
  simp only [List.length_append] at enough ⊢
  obtain ⟨c, more, rfl⟩ := List.exists_cons_of_ne_nil nonempty
  have plain : isspace c = false ∧ c ≠ byteOf '-' ∧ c ≠ byteOf '+' := by
    cases numeral with
    | cons head _ => exact digit_plain c (by simp [head.1])
  have skipped : skipSpaces mem fuel start = some (start + blanks.length) := by
    cases sign with
    | none => exact skipSpaces_blanks spells spaces plain.1 (by omega)
    | plus => exact skipSpaces_blanks spells spaces (by decide) (by omega)
    | minus => exact skipSpaces_blanks spells spaces (by decide) (by omega)
  have read := strtolDigits_numeral numeral spells.right.right stops
    (show _ < fuel by omega) 0
  rw [strtol_digits given skipped spells.right plain.2 read, foldl_accumulate]
  have place : start + blanks.length + sign.text.length + (c :: more).length =
      start + (blanks.length + (sign.text.length + (c :: more).length)) := by
    omega
  rw [place]
  cases sign with
  | none => rfl
  | plus => rfl
  | minus => rw [SignChar.ofLong, SignChar.apply, signed_neg]

end Reading

/-! ## What is printed -/

/-- A number as the `do … while (num)` loop of `print_dec_int` prints it. -/
def decimalText (num : Nat) : List Byte :=
  (digits 10 20 num).reverse.map fun digit => BitVec.ofNat 8 (digit + 0x30)

/-- The digits of the hexadecimal conversions. -/
def hexText (xdigits : String) (num : Nat) : List Byte :=
  (digits 16 16 num).reverse.map fun digit => (literal xdigits).getD digit 0

theorem isNumeral_map {base : Nat} {char : Nat → Byte}
    (chars : ∀ digit < base, digitOf (char digit) = some digit)
    {values : List Nat} (small : ∀ digit ∈ values, digit < base) :
    IsNumeral base (values.map char) values := by
  rw [IsNumeral, List.forall₂_map_left_iff, List.forall₂_same]
  exact fun digit member =>
    ⟨chars digit (small digit member), small digit member⟩

/-- Zeros in front of a numeral. -/
theorem IsNumeral.zeros {base : Nat} (positive : 0 < base) {text : List Byte}
    {values : List Nat} (numeral : IsNumeral base text values) (count : Nat) :
    IsNumeral base (List.replicate count (byteOf '0') ++ text)
      (List.replicate count 0 ++ values) := by
  induction count with
  | zero => exact numeral
  | succ count induction =>
      exact .cons ⟨by decide, positive⟩ induction

theorem decimalText_numeral (num : Nat) :
    IsNumeral 10 (decimalText num) (digits 10 20 num).reverse :=
  isNumeral_map (by decide) fun digit member =>
    digits_lt (by decide) digit (List.mem_reverse.1 member)

theorem decimalText_ne_nil (num : Nat) : decimalText num ≠ [] := by
  simp [decimalText, digits_ne_nil]

theorem hexText_numeral (upper : Bool) (num : Nat) :
    IsNumeral 16
      (hexText (if upper then "0123456789ABCDEF" else "0123456789abcdef") num)
      (digits 16 16 num).reverse :=
  isNumeral_map (by cases upper <;> decide) fun digit member =>
    digits_lt (by decide) digit (List.mem_reverse.1 member)

theorem hexText_ne_nil (xdigits : String) (num : Nat) :
    hexText xdigits num ≠ [] := by
  simp [hexText, digits_ne_nil]

theorem stops_nul (base : Nat) : Stops base 0 := by
  intro _ digit
  have none : digitOf 0 = none := by decide
  rw [none] at digit
  cases digit

theorem signed_word {num : Nat} (word : num < 2 ^ 64) :
    signed 64 num = if num < 2 ^ 63 then (num : Int) else num - 2 ^ 64 := by
  have low : (num : Int) % 2 ^ 64 = num := Int.emod_eq_of_lt (by omega) (by omega)
  rw [signed, low]
  split <;> split <;> omega

/-- Blanks, a sign, zeros and digits. -/
structure Printed (text : List Byte) (value : Int) where
  blanks : Nat
  sign : SignChar
  zeros : Nat
  digits : Nat
  shape : text = List.replicate blanks (byteOf ' ') ++
    (sign.text ++ (List.replicate zeros (byteOf '0') ++ decimalText digits))
  value : sign.apply digits = value
  small : digits < 2 ^ 63

/-- The character that `print_dec_int` puts in front of the digits, if any. -/
def signText (num : Nat) (flags : FmtFlags) : List Byte :=
  if signed 64 num < 0 then [byteOf '-']
  else if flags.sign then [byteOf '+']
  else if flags.spaceflag then [byteOf ' ']
  else []

theorem printDecInt_shape {num : Nat} {flags : FmtFlags}
    (inside : num ≠ 2 ^ 63) (shown : ¬ (flags.prec = 0 ∧ num = 0)) :
    ∃ blanks zeros, (printDecInt num true flags).1 =
      List.replicate blanks (byteOf ' ') ++ (signText num flags ++
        (List.replicate zeros (byteOf '0') ++
          decimalText (if signed 64 num < 0 then (2 ^ 64 - num) % 2 ^ 64
            else num))) := by
  have inside' : ¬ num = 0x8000000000000000 := inside
  have sign : (if signed 64 num < 0 ∨ flags.sign ∨ flags.spaceflag then
      [if signed 64 num < 0 then byteOf '-'
        else if flags.sign then byteOf '+' else byteOf ' ']
      else []) = signText num flags := by
    rw [signText]
    by_cases negative : signed 64 num < 0
    · simp only [negative, true_or, if_true]
    · cases flags.sign <;> cases flags.spaceflag <;> simp [negative]
  rw [printDecInt, if_neg (fun both => inside' both.2), if_neg shown]
  simp only [true_and, List.append_assoc, repeated, sign]
  exact ⟨_, _, rfl⟩

theorem strtol_decimalText {blanks : List Byte} {sign : SignChar}
    {zeros num fuel start : Nat} {mem : Bytes} {last : Byte}
    (spells : Spells mem start (blanks ++ (sign.text ++
      (List.replicate zeros (byteOf '0') ++ decimalText num ++ [last]))))
    (spaces : ∀ b ∈ blanks, isspace b = true) (fits : num < 10 ^ 20)
    (stops : Stops 10 last)
    (enough : (blanks ++ (sign.text ++
      (List.replicate zeros (byteOf '0') ++ decimalText num))).length < fuel) :
    strtol mem fuel start 10 =
      some (signed 64 (sign.apply num), start + (blanks ++ (sign.text ++
        (List.replicate zeros (byteOf '0') ++ decimalText num))).length) := by
  have numeral := (decimalText_numeral num).zeros (by decide) zeros
  have nonempty : List.replicate zeros (byteOf '0') ++ decimalText num ≠ [] :=
    List.append_ne_nil_of_right_ne_nil _ (decimalText_ne_nil num)
  rw [strtol_numeral (by decide) sign spells spaces numeral nonempty stops
    enough, numeralValue_zeros, numeralValue_digits fits]

theorem isspace_replicate (count : Nat) :
    ∀ b ∈ List.replicate count (byteOf ' '), isspace b = true := by
  intro b member
  rw [List.eq_of_mem_replicate member]
  decide

/-- The number whose digits `print_dec_int` prints. -/
def magnitude (num : Nat) : Nat :=
  if signed 64 num < 0 then (2 ^ 64 - num) % 2 ^ 64 else num

/-- What stands in front of the digits is the sign of the number, or blank. -/
theorem signText_sign {num : Nat} (word : num < 2 ^ 64) (flags : FmtFlags) :
    ∃ pad sign, signText num flags = pad ++ SignChar.text sign ∧
      (∀ b ∈ pad, isspace b = true) ∧
      sign.apply (magnitude num) = signed 64 num := by
  have value := signed_word word
  by_cases lower : num < 2 ^ 63
  · rw [if_pos lower] at value
    have positive : ¬ signed 64 num < 0 := by omega
    rw [signText, magnitude, if_neg positive, if_neg positive, value]
    cases flags.sign with
    | true => exact ⟨[], .plus, rfl, by simp, rfl⟩
    | false =>
        cases flags.spaceflag with
        | true => exact ⟨[byteOf ' '], .none, rfl, by decide, rfl⟩
        | false => exact ⟨[], .none, rfl, by simp, rfl⟩
  · rw [if_neg lower] at value
    have negative : signed 64 num < 0 := by omega
    have complement : (2 ^ 64 - num) % 2 ^ 64 = 2 ^ 64 - num :=
      Nat.mod_eq_of_lt (by omega)
    rw [signText, magnitude, if_pos negative, if_pos negative, value,
      complement]
    refine ⟨[], .minus, rfl, by simp, ?_⟩
    rw [SignChar.apply]
    omega

theorem signed_signed (bits : Nat) (a : Int) :
    signed bits (signed bits a) = signed bits a :=
  signed_congr (signed_emod bits a)

/-- Where nothing is printed, `strtol` stops at once. -/
theorem strtol_nothing {base fuel start : Nat} {mem : Bytes}
    (given : base ≠ 0) (spells : Spells mem start ([] ++ [0]))
    (enough : ([] : List Byte).length < fuel) :
    strtol mem fuel start base = some (0, start + ([] : List Byte).length) := by
  have skipped : skipSpaces mem fuel start = some start :=
    skipSpaces_blanks spells (by simp) (by decide) enough
  have unsigned : Spells mem start (SignChar.none.text ++ 0 :: []) := spells
  have read := strtolDigits_numeral .nil spells (stops_nul base) enough 0
  exact strtol_digits given skipped unsigned (by decide) read

/-- What `print_dec_int` prints of a `long` is read back by `strtol`. -/
theorem strtol_printDecInt {num fuel start : Nat} {flags : FmtFlags}
    {mem : Bytes} (word : num < 2 ^ 64) (inside : num ≠ 2 ^ 63)
    (spells : Spells mem start ((printDecInt num true flags).1 ++ [0]))
    (enough : (printDecInt num true flags).1.length < fuel) :
    strtol mem fuel start 10 =
      some (signed 64 num,
        start + (printDecInt num true flags).1.length) := by
  by_cases empty : flags.prec = 0 ∧ num = 0
  · have nothing : (printDecInt num true flags).1 = [] := by
      rw [printDecInt, if_neg (fun both => inside both.2), if_pos empty]
    rw [nothing] at spells enough ⊢
    rw [strtol_nothing (by decide) spells enough, empty.2]
    rfl
  obtain ⟨blanks, zeros, shape⟩ := printDecInt_shape inside empty
  obtain ⟨pad, sign, text, spaces, value⟩ := signText_sign word flags
  have fits : magnitude num < 10 ^ 20 := by
    rw [magnitude]
    split <;> omega
  have front (b : Byte) (member : b ∈ List.replicate blanks (byteOf ' ') ++ pad) :
      isspace b = true :=
    (List.mem_append.1 member).elim (isspace_replicate blanks b) (spaces b)
  have whole : (printDecInt num true flags).1 =
      List.replicate blanks (byteOf ' ') ++ pad ++ (sign.text ++
        (List.replicate zeros (byteOf '0') ++
          decimalText (magnitude num))) := by
    rw [shape, text, magnitude]
    simp only [List.append_assoc]
  rw [whole] at spells enough ⊢
  rw [strtol_decimalText (by simpa only [List.append_assoc] using spells) front
    fits (stops_nul 10) enough, value, signed_signed]

/-- The flags of `%6d`. -/
def widthSix : FmtFlags :=
  { FmtFlags.cleared with inFormat := true, width := 6, prec := -1 }

/-- A text at address `0`. -/
def textMemory (text : List Byte) : Bytes :=
  fun index => text.getD index 0

/-- The number `-7` in a field of six characters. -/
theorem strtol_printDecInt_negative :
    signed 64 (2 ^ 64 - 7 : Nat) = -7 ∧
    strtol (textMemory (printDecInt (2 ^ 64 - 7) true widthSix).1) 8 0 10 =
      some (signed 64 (2 ^ 64 - 7 : Nat),
        0 + (printDecInt (2 ^ 64 - 7) true widthSix).1.length) :=
  ⟨by decide, strtol_printDecInt (by decide) (by decide)
    (by unfold Spells; decide +kernel) (by decide +kernel)⟩

/-- The `0x` in front of the digits. -/
def prefixText (num : Nat) (conversion : Byte) (flags : FmtFlags) : List Byte :=
  if conversion = byteOf 'p' ∨ (flags.sharpflag ∧ num ≠ 0) then
    [byteOf '0', if conversion = byteOf 'X' then byteOf 'X' else byteOf 'x']
  else []

theorem printHex_shape {num : Nat} {conversion : Byte} {flags : FmtFlags}
    (shown : ¬ (flags.prec = 0 ∧ num = 0 ∧ ¬ conversion = byteOf 'p')) :
    ∃ blanks zeros, (printHex num conversion flags).1 =
      List.replicate blanks (byteOf ' ') ++ (prefixText num conversion flags ++
        (List.replicate zeros (byteOf '0') ++
          hexText (if conversion = byteOf 'X' then "0123456789ABCDEF"
            else "0123456789abcdef") num)) := by
  rw [printHex, if_neg shown]
  simp only [List.append_assoc, repeated]
  exact ⟨_, _, rfl⟩

/-- With the base left open, `0x` stands for sixteen. -/
theorem strtol_prefixed {mem : Bytes} {fuel start p : Nat} {c : Byte}
    {rest : List Byte} (skipped : skipSpaces mem fuel start = some p)
    (spells : Spells mem p (byteOf '0' :: c :: rest))
    (letter : c = byteOf 'x' ∨ c = byteOf 'X') {ret : Int} {stop : Nat}
    (read : strtolDigits mem 16 fuel (p + 2) 0 = some (ret, stop)) :
    strtol mem fuel start 0 = some (ret, stop) := by
  have zero : mem p = byteOf '0' := spells.head
  have second : mem (p + 1) = c := spells.tail.head
  have notMinus : byteOf '0' ≠ byteOf '-' := by decide
  have notPlus : byteOf '0' ≠ byteOf '+' := by decide
  simp only [strtol, skipped, Option.bind_eq_bind, Option.bind_some, zero,
    notMinus, notPlus, if_true, if_false, second, letter, read, Option.pure_def,
    Bool.false_eq_true]

/-- What the hexadecimal conversions print is read back by `strtol`. -/
theorem strtol_printHex {num fuel start : Nat} {conversion : Byte}
    {flags : FmtFlags} {mem : Bytes} (long : num < 2 ^ 63)
    (spells : Spells mem start ((printHex num conversion flags).1 ++ [0]))
    (enough : (printHex num conversion flags).1.length < fuel) :
    strtol mem fuel start
        (if conversion = byteOf 'p' ∨ (flags.sharpflag ∧ num ≠ 0) then 0
          else 16) =
      some ((num : Int), start + (printHex num conversion flags).1.length) := by
  have fits : num < 16 ^ 16 := by omega
  have value : signed 64 num = num := by
    rw [signed_word (by omega), if_pos long]
  by_cases empty : flags.prec = 0 ∧ num = 0 ∧ ¬ conversion = byteOf 'p'
  · obtain ⟨none, rfl, notPointer⟩ := empty
    have nothing : (printHex 0 conversion flags).1 = [] := by
      rw [printHex, if_pos ⟨none, rfl, notPointer⟩]
    have plain : ¬ (conversion = byteOf 'p' ∨ (flags.sharpflag ∧ 0 ≠ 0)) := by
      simp [notPointer]
    rw [nothing] at spells enough ⊢
    rw [if_neg plain, strtol_nothing (by decide) spells enough]
    rfl
  obtain ⟨blanks, zeros, shape⟩ := printHex_shape empty
  have numeral (upper : Prop) [Decidable upper] :
      IsNumeral 16 (List.replicate zeros (byteOf '0') ++
          hexText (if upper then "0123456789ABCDEF" else "0123456789abcdef") num)
        (List.replicate zeros 0 ++ (digits 16 16 num).reverse) := by
    have plain := hexText_numeral (decide upper) num
    simp only [decide_eq_true_eq] at plain
    exact plain.zeros (by decide) zeros
  have nonempty := List.append_ne_nil_of_right_ne_nil
    (List.replicate zeros (byteOf '0'))
    (hexText_ne_nil (if conversion = byteOf 'X' then "0123456789ABCDEF"
      else "0123456789abcdef") num)
  have whole : numeralValue 16
      (List.replicate zeros 0 ++ (digits 16 16 num).reverse) = num := by
    rw [numeralValue_zeros, numeralValue_digits fits]
  rw [shape] at spells enough ⊢
  by_cases isPrefixed :
      conversion = byteOf 'p' ∨ (flags.sharpflag ∧ num ≠ 0)
  · rw [prefixText, if_pos isPrefixed] at spells enough ⊢
    rw [if_pos isPrefixed]
    simp only [List.append_assoc, List.cons_append, List.nil_append] at spells
    simp only [List.length_append, List.length_cons, List.length_nil] at enough ⊢
    have skipped := skipSpaces_blanks spells (isspace_replicate blanks)
      (by decide) (show _ < fuel by omega)
    have read := strtolDigits_numeral (numeral _)
      (by simpa only [List.append_assoc] using spells.right.tail.tail)
      (stops_nul 16)
      (show _ < fuel by rw [List.length_append]; omega) 0
    rw [foldl_accumulate, whole, value, List.length_append] at read
    have letter : (if conversion = byteOf 'X' then byteOf 'X' else byteOf 'x') =
        byteOf 'x' ∨ (if conversion = byteOf 'X' then byteOf 'X'
          else byteOf 'x') = byteOf 'X' := by
      split
      · exact .inr rfl
      · exact .inl rfl
    rw [strtol_prefixed skipped spells.right letter read]
    refine congrArg (fun stop => some ((num : Int), stop)) ?_
    omega
  · rw [prefixText, if_neg isPrefixed] at spells enough ⊢
    have read := strtol_numeral (by decide) .none
      (by simpa only [List.append_assoc, SignChar.text] using spells)
      (isspace_replicate blanks) (numeral _) nonempty (stops_nul 16) enough
    rw [whole] at read
    change _ = some (signed 64 (num : Int), _) at read
    rw [value] at read
    rw [if_neg isPrefixed]
    exact read

/-- The number `255` as a pointer. -/
theorem strtol_printHex_pointer :
    strtol (textMemory (printHex 255 (byteOf 'p') widthSix).1) 8 0
        (if byteOf 'p' = byteOf 'p' ∨ (widthSix.sharpflag ∧ 255 ≠ 0) then 0
          else 16) =
      some (((255 : Nat) : Int),
        0 + (printHex 255 (byteOf 'p') widthSix).1.length) :=
  strtol_printHex (by decide) (by unfold Spells; decide +kernel)
    (by decide +kernel)

/-! ## Numbers of type `int` -/

/-- The first digit of a number that is not zero is not `0`. -/
theorem digits_getLast {base fuel num : Nat} (positive : 0 < num)
    (fits : num < base ^ fuel) :
    ∃ front last, digits base fuel num = front ++ [last] ∧ 0 < last ∧
      last < base := by
  induction fuel generalizing num with
  | zero =>
      rw [Nat.pow_zero] at fits
      omega
  | succ fuel induction =>
      have less : num / base < base ^ fuel :=
        Nat.div_lt_of_lt_mul (by rwa [← Nat.pow_succ'])
      have basePos : 0 < base := by
        by_contra none
        rw [Nat.eq_zero_of_not_pos none, Nat.zero_pow (Nat.succ_pos fuel)] at fits
        omega
      rw [digits]
      split
      · rename_i none
        have whole := Nat.div_add_mod' num base
        rw [none, Nat.zero_mul, Nat.zero_add] at whole
        exact ⟨[], num % base, rfl, by omega, Nat.mod_lt _ basePos⟩
      · rename_i more
        obtain ⟨front, last, same, bounds⟩ :=
          induction (Nat.pos_of_ne_zero more) less
        exact ⟨num % base :: front, last, by rw [same]; rfl, bounds⟩

theorem decimalText_cons {num : Nat} (positive : 0 < num)
    (fits : num < 10 ^ 20) :
    ∃ digit rest, decimalText num = BitVec.ofNat 8 (digit + 0x30) :: rest ∧
      0 < digit ∧ digit < 10 := by
  obtain ⟨front, last, same, bounds⟩ := digits_getLast positive fits
  refine ⟨last, front.reverse.map fun digit => BitVec.ofNat 8 (digit + 0x30),
    ?_, bounds⟩
  rw [decimalText, same, List.reverse_append, List.map_append]
  rfl

instance (base : Nat) (c : Byte) : Decidable (Stops base c) :=
  decidable_of_iff (∀ digit ∈ digitOf c, base ≤ digit) Iff.rfl

/-- `strtol` of the digits of a number of type `int`. -/
theorem strtol_number {mem : Bytes} {fuel start value : Nat} {next : Byte}
    (spells : Spells mem start (decimalText value ++ [next]))
    (stops : Stops 10 next) (small : value < 2 ^ 31)
    (enough : (decimalText value).length < fuel) :
    strtol mem fuel start 10 =
      some ((value : Int), start + (decimalText value).length) := by
  have plain : Spells mem start
      ([] ++ (SignChar.none.text ++ (decimalText value ++ [next]))) := spells
  have read := strtol_numeral (by decide) .none plain (by simp)
    (decimalText_numeral value) (decimalText_ne_nil value) stops enough
  have fits : value < 10 ^ 20 := by omega
  rw [numeralValue_digits fits] at read
  change _ = some (signed 64 (value : Int), _) at read
  rw [signed_word (by omega), if_pos (by omega)] at read
  exact read

theorem signed_int {value : Nat} (small : value < 2 ^ 31) :
    signed 32 value = value :=
  signed_of_fits (by decide) (by omega) (by simpa using small)

theorem decimalText_head (num : Nat) :
    ∃ digit rest, decimalText num = BitVec.ofNat 8 (digit + 0x30) :: rest ∧
      digit < 10 := by
  obtain ⟨c, rest, text⟩ := List.exists_cons_of_ne_nil (decimalText_ne_nil num)
  have member : c ∈ decimalText num := text ▸ List.mem_cons_self
  obtain ⟨digit, inside, rfl⟩ := List.mem_map.1 member
  exact ⟨digit, rest, text,
    digits_lt (by decide) digit (List.mem_reverse.1 inside)⟩

end TinyRiscvOs.Kernel
