import Mathlib.Data.List.DropRight
import TinyRiscvOs.Lib.Scan

/-!
# The command parser of the shell

`get_param` and `get_string` fetch an argument of a command line into
`string_buf`; `parse_cmd` tells the commands apart and runs them.  The line and
`string_buf` are byte stores.  Each function also returns the ends of what it
read of the line and stored into `string_buf`.  What a system call returns is
given by the environment of a command.
-/

namespace TinyRiscvOs.User

open TinyRiscvOs.Lib TinyRiscvOs.Lib.Bytes

/-! ## The code -/

/-- `' '`. -/
abbrev blank : Byte := 0x20

/-- `'"'`. -/
abbrev quote : Byte := 0x22

/-- `'\n'`. -/
abbrev newline : Byte := 0x0a

/-- `*cmd == ' '`. -/
def isBlank (c : Byte) : Bool :=
  c == blank

/-- `*cmd == ' ' && *cmd != '\0'`. -/
def isBlankInLine (c : Byte) : Bool :=
  c == blank && c != 0

/-- `*cmd != '\0' && *cmd != ' '`. -/
def inWord (c : Byte) : Bool :=
  c != 0 && c != blank

/-- `*cmd != '"'`. -/
def inQuotes (c : Byte) : Bool :=
  c != quote

/-- `*str != '\0'`. -/
def inString (c : Byte) : Bool :=
  c != 0

/-- `strlen`. -/
def strlen (str : Bytes) (fuel start : Nat) : Option Nat :=
  (scanWhile inString str fuel start).map (· - start)

/-- The first bytes of a string, copied into an array of its own. -/
def takeString (str : Bytes) (len : Nat) : List Byte :=
  (List.range len).map str

/-- `atoi`, wrapping like the machine's `int`. -/
def atoi (str : List Byte) : BitVec 32 :=
  (str.takeWhile inString).foldl
    (fun ret c => ret * 10 + c.setWidth 32 - 0x30) 0

/-- A fetched string, and the ends of what was read and stored for it. -/
structure Fetched where
  stringBuf : Bytes
  readEnd : Nat
  storeEnd : Nat

/-- `string_buf[pos] = '\0'`. -/
def fetched (copied : Copied) : Fetched where
  stringBuf := Function.update copied.buffer copied.pos 0
  readEnd := copied.cmd + 1
  storeEnd := copied.pos + 1

/-- `get_param`. -/
def getParam (line : Bytes) (fuel cmd : Nat) (stringBuf : Bytes) :
    Option Fetched := do
  let cmd ← scanWhile isBlank line fuel cmd
  (copyWhile inWord line fuel cmd 0 stringBuf).map fetched

/-- `get_string`. -/
def getString (line : Bytes) (fuel cmd : Nat) (stringBuf : Bytes) :
    Option Fetched := do
  let cmd ← scanWhile isBlank line fuel cmd
  if line cmd = quote then
    (copyWhile inQuotes line fuel (cmd + 1) 0 stringBuf).map fetched
  else getParam line fuel cmd stringBuf

/-- A call of the system or of `printf`. -/
inductive UserCall where
  | write (fd : Int) (buf : List Byte)
  | openat (filename : List Byte) (flags : Nat)
  | read (fd : Int) (count : Nat)
  | lseek (fd : Int) (offset : BitVec 32)
  | close (fd : Int)
  | printf (format : String) (argument : List Byte)
  deriving DecidableEq

/-- What the calls of one command return: `open`, and the successive `read`s. -/
structure CommandEnv where
  opened : Int
  read : Nat → Int × Bytes
  /-- The byte in which `last_char` is placed. -/
  lastChar : Byte

/-- A parsed command, and the ends of what was read and stored for it. -/
structure Parsed where
  stringBuf : Bytes
  readEnd : Nat
  storeEnd : Nat
  calls : List UserCall

/-- How many bytes of a word `cmd[0] == … && cmd[1] == …` finds. -/
def matching (line : Bytes) : List Byte → Nat → Nat
  | [], _ => 0
  | c :: word, cmd =>
      if line cmd = c then matching line word (cmd + 1) + 1 else 0

/-- The end of the bytes the comparison with a word reads. -/
def comparedEnd (line : Bytes) (word : List Byte) : Nat :=
  min (matching line word 0 + 1) word.length

/-- `echo`. -/
def echoWord : List Byte := [0x65, 0x63, 0x68, 0x6f]

/-- `cat`. -/
def catWord : List Byte := [0x63, 0x61, 0x74]

/-- `edit`. -/
def editWord : List Byte := [0x65, 0x64, 0x69, 0x74]

/-- The branch of `echo`. -/
def echoCommand (line : Bytes) (fuel : Nat) (stringBuf : Bytes) :
    Option Parsed := do
  let content ← getString line fuel 4 stringBuf
  let len ← strlen content.stringBuf fuel 0
  some
    { stringBuf := content.stringBuf
      readEnd := content.readEnd
      storeEnd := content.storeEnd
      calls := [.write 1 (takeString content.stringBuf len),
        .write 1 [newline]] }

/-- `O_RDONLY`. -/
abbrev oRdonly : Nat := 0x0001

/-- `O_RDWR`. -/
abbrev oRdwr : Nat := 0x0003

/-- `CAT_BUF_SIZE`. -/
abbrev catBufSize : Nat := 509

/-- How `cat` shows a byte: an `x` for a zero byte. -/
def catByte (c : Byte) : Byte :=
  if c = 0 then 0x78 else c

/-- The bytes of one `read` that `cat` walks over. -/
def catBytes (result : Int × Bytes) : List Byte :=
  takeString result.2 result.1.toNat

/-- The loop of `cat`, from the `k`-th `read` on. -/
def catLoop (env : CommandEnv) :
    Nat → Nat → Byte → Option (List UserCall)
  | 0, _, _ => none
  | fuel + 1, k, lastChar =>
      let call := UserCall.read env.opened catBufSize
      if (env.read k).1 = 0 then
        some (call :: if lastChar ≠ newline then [.printf "$\n" []] else [])
      else
        let bytes := catBytes (env.read k)
        (catLoop env fuel (k + 1) (bytes.getLastD lastChar)).map fun calls =>
          call :: bytes.map (fun c => .write 1 [catByte c]) ++ calls

/-- The calls of `cat` after `open`. -/
def catCalls (env : CommandEnv) (fuel : Nat) (filename : List Byte) :
    Option (List UserCall) :=
  if env.opened = -1 then some [.printf "can't open file: %s\n" filename]
  else (catLoop env fuel 0 env.lastChar).map (· ++ [.close env.opened])

/-- The branch of `cat`. -/
def catCommand (env : CommandEnv) (line : Bytes) (fuel : Nat)
    (stringBuf : Bytes) : Option Parsed := do
  let filename ← getParam line fuel 3 stringBuf
  let len ← strlen filename.stringBuf fuel 0
  let text := takeString filename.stringBuf len
  let calls ← catCalls env fuel text
  some
    { stringBuf := filename.stringBuf
      readEnd := filename.readEnd
      storeEnd := filename.storeEnd
      calls := .openat text oRdonly :: calls }

/-- An argument of `edit` copied out of `string_buf`, and where `cmd` is then. -/
structure Argument where
  text : List Byte
  cmd : Nat
  fetched : Fetched

/-- One argument of `edit`: skip blanks, fetch it, copy it, `cmd += len`. -/
def editArgument
    (fetch : Bytes → Nat → Nat → Bytes → Option Fetched)
    (line : Bytes) (fuel cmd : Nat) (stringBuf : Bytes) :
    Option Argument := do
  let cmd ← scanWhile isBlankInLine line fuel cmd
  let temp ← fetch line fuel cmd stringBuf
  let len ← strlen temp.stringBuf fuel 0
  some
    { text := takeString temp.stringBuf len
      cmd := cmd + len
      fetched := temp }

/-- The branch of `edit`. -/
def editCommand (env : CommandEnv) (line : Bytes) (fuel : Nat)
    (stringBuf : Bytes) : Option Parsed := do
  let filename ← editArgument getParam line fuel 4 stringBuf
  let offset ← editArgument getParam line fuel filename.cmd
    filename.fetched.stringBuf
  let content ← editArgument getString line fuel offset.cmd
    offset.fetched.stringBuf
  some
    { stringBuf := content.fetched.stringBuf
      readEnd := max filename.fetched.readEnd
        (max offset.fetched.readEnd content.fetched.readEnd)
      storeEnd := max filename.fetched.storeEnd
        (max offset.fetched.storeEnd content.fetched.storeEnd)
      calls := [.openat filename.text oRdwr,
        .lseek env.opened (atoi offset.text),
        .write env.opened content.text, .close env.opened] }

/-- The branch of an unknown command, which prints the line. -/
def unknownCommand (line : Bytes) (fuel : Nat) (stringBuf : Bytes) :
    Option Parsed := do
  let len ← strlen line fuel 0
  some
    { stringBuf
      readEnd := len + 1
      storeEnd := 0
      calls := [.printf "command not found: %s\n" (takeString line len)] }

/-- A branch reached after the comparisons with the given words. -/
def Parsed.compared (line : Bytes) (words : List (List Byte))
    (parsed : Parsed) : Parsed :=
  { parsed with
    readEnd := words.foldl (fun last word => max last (comparedEnd line word))
      parsed.readEnd }

/-- The line starts with the word. -/
def StartsWith (line : Bytes) (word : List Byte) : Prop :=
  matching line word 0 = word.length

instance (line : Bytes) (word : List Byte) :
    Decidable (StartsWith line word) :=
  inferInstanceAs (Decidable (_ = _))

/-- `parse_cmd`. -/
def parseCmd (env : CommandEnv) (line : Bytes) (fuel : Nat)
    (stringBuf : Bytes) : Option Parsed :=
  if StartsWith line echoWord then
    (echoCommand line fuel stringBuf).map (.compared line [echoWord])
  else if StartsWith line catWord then
    (catCommand env line fuel stringBuf).map
      (.compared line [echoWord, catWord])
  else if StartsWith line editWord then
    (editCommand env line fuel stringBuf).map
      (.compared line [echoWord, catWord, editWord])
  else
    (unknownCommand line fuel stringBuf).map
      (.compared line [echoWord, catWord, editWord])

/-! ## Fetching an argument -/

/-- A line behind its blanks. -/
def skipBlanks (l : List Byte) : List Byte :=
  l.dropWhile isBlank

/-- The word a line starts with. -/
def word (l : List Byte) : List Byte :=
  (skipBlanks l).takeWhile inWord

/-- What follows that word. -/
def afterWord (l : List Byte) : List Byte :=
  (skipBlanks l).dropWhile inWord

/-- A quote with which a line starts is closed again. -/
def Closed (l : List Byte) : Prop :=
  (skipBlanks l).head? = some quote → quote ∈ (skipBlanks l).tail

instance (l : List Byte) : Decidable (Closed l) :=
  inferInstanceAs (Decidable (_ → _))

theorem skipBlanks_skipBlanks (l : List Byte) :
    skipBlanks (skipBlanks l) = skipBlanks l :=
  List.dropWhile_idempotent isBlank l

theorem length_skipBlanks (l : List Byte) :
    (l.takeWhile isBlank).length + (skipBlanks l).length = l.length := by
  rw [skipBlanks, ← List.length_append, List.takeWhile_append_dropWhile]

theorem length_word (l : List Byte) :
    (word l).length + (afterWord l).length = (skipBlanks l).length := by
  rw [word, afterWord, ← List.length_append, List.takeWhile_append_dropWhile]

theorem inString_word {l : List Byte} :
    (word l).takeWhile inString = word l := by
  rw [List.takeWhile_eq_self_iff]
  intro c member
  have kept : inWord c = true := List.mem_takeWhile_imp member
  simp only [inWord, Bool.and_eq_true] at kept
  exact kept.1

theorem isBlankInLine_eq : isBlankInLine = isBlank := by
  funext c
  rw [isBlankInLine, isBlank]
  by_cases blanks : c = blank
  · subst blanks
    rfl
  · rw [beq_false_of_ne blanks, Bool.false_and]

/-- The string is in `string_buf`, and these are the ends of the accesses. -/
structure Fetched.Holds (result : Fetched) (text : List Byte) (stop : Nat) :
    Prop where
  spells : Spells result.stringBuf 0 (text ++ [0])
  readEnd : result.readEnd = stop + 1
  storeEnd : result.storeEnd = text.length + 1

/-- What is fetched by a copy from `p` up to `stop`. -/
def fetchedAt (line : Bytes) (p stop : Nat) (stringBuf : Bytes) : Fetched :=
  fetched
    { cmd := stop, pos := stop - p,
      buffer := copy stringBuf 0 line p (stop - p) }

theorem copyWhile_fetched (keep : Byte → Bool) (line : Bytes) (fuel p : Nat)
    (stringBuf : Bytes) :
    (copyWhile keep line fuel p 0 stringBuf).map fetched =
      (scanWhile keep line fuel p).map fun stop =>
        fetchedAt line p stop stringBuf := by
  rw [copyWhile_eq, Option.map_map]
  congr 1
  funext stop
  rw [Function.comp_apply, fetchedAt, Nat.zero_add]

theorem fetchedAt_holds {line : Bytes} {p stop : Nat} {text : List Byte}
    (spells : Spells line p text) (ends : p + text.length = stop)
    (stringBuf : Bytes) :
    (fetchedAt line p stop stringBuf).Holds text stop := by
  subst ends
  have copied := (spells.copied stringBuf 0).concat 0
  rw [Nat.zero_add] at copied
  rw [fetchedAt, Nat.add_sub_cancel_left]
  exact ⟨copied, rfl, rfl⟩

section Fetch

variable {line stringBuf : Bytes} {fuel cmd : Nat} {l : List Byte}
    {result : Fetched}

theorem strlen_spells {str : Bytes} {text : List Byte}
    (spells : Spells str 0 (text ++ [0])) :
    strlen str fuel 0 =
      if (text.takeWhile inString).length < fuel then
        some (text.takeWhile inString).length
      else none := by
  rw [strlen, scanWhile_terminated spells rfl]
  split <;> simp

/-- The blanks before an argument are stepped over. -/
theorem skip_spells (spells : Spells line cmd (l ++ [0])) :
    Spells line (cmd + (l.takeWhile isBlank).length) (skipBlanks l ++ [0]) :=
  spells.dropWhile_terminated rfl

theorem getParam_eq (spells : Spells line cmd (l ++ [0])) :
    getParam line fuel cmd stringBuf =
      if (l.takeWhile isBlank).length < fuel ∧ (word l).length < fuel then
        some (fetchedAt line (cmd + (l.takeWhile isBlank).length)
          (cmd + (l.takeWhile isBlank).length + (word l).length) stringBuf)
      else none := by
  rw [getParam, scanWhile_terminated spells rfl]
  by_cases enough : (l.takeWhile isBlank).length < fuel
  · rw [if_pos enough]
    simp only [Option.bind_eq_bind, Option.bind_some, enough, true_and]
    rw [copyWhile_fetched, scanWhile_terminated (skip_spells spells) rfl, word]
    split <;> rfl
  · rw [if_neg enough, if_neg (fun both => enough both.1)]
    rfl

/-- What `get_param` fetches from a line. -/
theorem getParam_holds (spells : Spells line cmd (l ++ [0]))
    (found : getParam line fuel cmd stringBuf = some result) :
    result.Holds (word l)
      (cmd + (l.takeWhile isBlank).length + (word l).length) := by
  rw [getParam_eq spells] at found
  split at found
  · have words : Spells line (cmd + (l.takeWhile isBlank).length) (word l) := by
      have skipped := (skip_spells spells).left
      rw [← List.takeWhile_append_dropWhile (p := inWord)
        (l := skipBlanks l)] at skipped
      exact skipped.left
    exact Option.some.inj found ▸ fetchedAt_holds words rfl stringBuf
  · cases found

theorem getParam_terminates (spells : Spells line cmd (l ++ [0]))
    (enough : l.length < fuel) :
    ∃ result, getParam line fuel cmd stringBuf = some result := by
  have blanks := length_skipBlanks l
  have words := length_word l
  exact ⟨_, by rw [getParam_eq spells, if_pos (by omega)]⟩

/-- A closed quote: the string up to the next one is fetched. -/
theorem getString_quoted {tail : List Byte}
    (spells : Spells line cmd (l ++ [0]))
    (opens : skipBlanks l = quote :: tail) (closes : quote ∈ tail) :
    getString line fuel cmd stringBuf =
      if (l.takeWhile isBlank).length < fuel ∧
          (tail.takeWhile inQuotes).length < fuel then
        some (fetchedAt line (cmd + (l.takeWhile isBlank).length + 1)
          (cmd + (l.takeWhile isBlank).length + 1 +
            (tail.takeWhile inQuotes).length) stringBuf)
      else none := by
  have skipped := skip_spells spells
  rw [opens, List.cons_append] at skipped
  have ends : tail.dropWhile inQuotes ≠ [] := by
    rw [Ne, List.dropWhile_eq_nil_iff]
    intro kept
    exact absurd (kept quote closes) (by decide)
  rw [getString, scanWhile_terminated spells rfl]
  by_cases enough : (l.takeWhile isBlank).length < fuel
  · rw [if_pos enough]
    simp only [Option.bind_eq_bind, Option.bind_some, enough, true_and]
    rw [if_pos skipped.head, copyWhile_fetched,
      scanWhile_spells skipped.tail.left ends]
    split <;> rfl
  · rw [if_neg enough, if_neg (fun both => enough both.1)]
    rfl

/-- A quote left open: the loop runs past the end of the line. -/
theorem getString_open {tail : List Byte}
    (spells : Spells line cmd (l ++ [0]))
    (opens : skipBlanks l = quote :: tail) (unclosed : quote ∉ tail)
    (found : getString line fuel cmd stringBuf = some result) :
    cmd + l.length + 1 < result.readEnd := by
  have blanks := length_skipBlanks l
  rw [opens, List.length_cons] at blanks
  have skipped := skip_spells spells
  rw [opens, List.cons_append] at skipped
  have kept : ∀ c ∈ tail ++ [0], inQuotes c = true := by
    intro c member
    rcases List.mem_append.1 member with inside | last
    · simp only [inQuotes, bne_iff_ne]
      exact fun same => unclosed (same ▸ inside)
    · rw [List.mem_singleton.1 last]
      rfl
  rw [getString, scanWhile_terminated spells rfl] at found
  split at found
  · simp only [Option.bind_eq_bind, Option.bind_some] at found
    rw [if_pos skipped.head, copyWhile_fetched, Option.map_eq_some_iff] at found
    obtain ⟨stop, scanned, rfl⟩ := found
    have past := scanWhile_beyond skipped.tail kept scanned
    rw [List.length_append, List.length_singleton] at past
    have ends : (fetchedAt line (cmd + (l.takeWhile isBlank).length + 1) stop
        stringBuf).readEnd = stop + 1 := rfl
    rw [ends]
    omega
  · cases found

/-- Without a quote `get_string` is `get_param` behind the blanks. -/
theorem getString_plain (spells : Spells line cmd (l ++ [0]))
    (plain : (skipBlanks l).head? ≠ some quote) :
    getString line fuel cmd stringBuf =
      if (l.takeWhile isBlank).length < fuel then
        getParam line fuel (cmd + (l.takeWhile isBlank).length) stringBuf
      else none := by
  have other : line (cmd + (l.takeWhile isBlank).length) ≠ quote := by
    have skipped := skip_spells spells
    cases cases_ : skipBlanks l with
    | nil =>
        rw [cases_] at skipped
        rw [skipped.head]
        decide
    | cons c rest =>
        rw [cases_] at skipped plain
        rw [skipped.head]
        exact fun same => plain (by rw [same, List.head?_cons])
  rw [getString, scanWhile_terminated spells rfl]
  split
  · simp only [Option.bind_eq_bind, Option.bind_some]
    rw [if_neg other]
  · rfl

end Fetch

end TinyRiscvOs.User
