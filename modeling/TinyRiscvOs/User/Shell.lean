import TinyRiscvOs.Lib.Run
import TinyRiscvOs.User.Commands

/-!
# The loop of the shell

`main` collects the console bytes in `line_buf`, deletes the last one on a
`0x7f` and hands the line to `parse_cmd` on a carriage return.  It never
compares the index with the size of `line_buf`.  The accesses stay inside the
buffers exactly for the streams whose lines fit and are well formed.
-/

namespace TinyRiscvOs.User

open TinyRiscvOs.Lib TinyRiscvOs.Lib.Bytes

/-! ## The code -/

/-- The size of `line_buf`. -/
abbrev lineBufSize : Nat := 128

/-- The size of `string_buf`. -/
abbrev stringBufSize : Nat := 2048

/-- `'\r'`. -/
abbrev carriageReturn : Byte := 0x0d

/-- The byte of the backspace key. -/
abbrev delete : Byte := 0x7f

/-- The local variables of `main`, `string_buf`, and the commands run so far. -/
structure Shell where
  lineBuf : Bytes
  charInLine : Nat
  stringBuf : Bytes
  commands : Nat

/-- The shell before its loop, with the buffers as they are found. -/
def Shell.start (lineBuf stringBuf : Bytes) : Shell where
  lineBuf := lineBuf
  charInLine := 0
  stringBuf := stringBuf
  commands := 0

/-- One pass of the loop: the store into `line_buf` and the parsed command. -/
structure Turn where
  shell : Shell
  lineStore : Option Nat
  parsed : Option Parsed
  calls : List UserCall

/-- `printf(YELLOW "SHELL > " CLEAR)`. -/
def prompt : UserCall :=
  .printf "\x1b[33mSHELL > \x1b[0m" []

/-- One pass of the loop of `main`, for the byte that `read` returned. -/
def mainTurn (env : Nat → CommandEnv) (fuel : Nat) (shell : Shell)
    (readBuf : Byte) : Option Turn :=
  if readBuf = carriageReturn then
    let lineBuf := Function.update shell.lineBuf shell.charInLine 0
    (parseCmd (env shell.commands) lineBuf fuel shell.stringBuf).map
      fun parsed =>
        { shell :=
            { lineBuf, charInLine := 0, stringBuf := parsed.stringBuf
              commands := shell.commands + 1 }
          lineStore := some shell.charInLine
          parsed := some parsed
          calls := [.write 1 [newline], .write 1 [readBuf]] ++ parsed.calls ++
            [prompt] }
  else if readBuf = delete then
    some
      { shell := { shell with charInLine := shell.charInLine - 1 }
        lineStore := none
        parsed := none
        calls :=
          if 0 < shell.charInLine then [.write 1 [0x08, blank, 0x08]]
          else [] }
  else
    some
      { shell :=
          { shell with
            lineBuf := Function.update shell.lineBuf shell.charInLine readBuf
            charInLine := shell.charInLine + 1 }
        lineStore := some shell.charInLine
        parsed := none
        calls := [.write 1 [readBuf]] }

/-! ## Staying inside the buffers -/

/-- The loop takes a byte and comes back for the next one. -/
def Step (env : Nat → CommandEnv) (shell : Shell) (byte : Byte)
    (next : Shell) : Prop :=
  ∃ fuel turn, mainTurn env fuel shell byte = some turn ∧ turn.shell = next

/-- The accesses of a pass stay inside the buffers and the line. -/
structure Turn.Inside (turn : Turn) (shell : Shell) : Prop where
  line : ∀ i ∈ turn.lineStore, i < lineBufSize
  read : ∀ parsed ∈ turn.parsed, parsed.readEnd ≤ shell.charInLine + 1
  store : ∀ parsed ∈ turn.parsed, parsed.storeEnd ≤ stringBufSize

/-- The first bytes of a stream. -/
def consumed (stream : Nat → Byte) (n : Nat) : List Byte :=
  (List.range n).map stream

/-- The shell takes every byte of the stream, and no pass leaves the buffers. -/
structure StaysInside (env : Nat → CommandEnv) (stream : Nat → Byte)
    (start : Shell) : Prop where
  goesOn : ∀ n, ∃ shell, Run (Step env) start (consumed stream n) shell
  inside : ∀ n shell fuel turn,
    Run (Step env) start (consumed stream n) shell →
      mainTurn env fuel shell (stream n) = some turn → turn.Inside shell

/-! ## The line on the screen -/

/-- The line after one more byte. -/
def typed (line : List Byte) (byte : Byte) : List Byte :=
  if byte = carriageReturn then []
  else if byte = delete then line.dropLast
  else line ++ [byte]

/-- The unfinished line after some bytes. -/
def lineAfter (bytes : List Byte) : List Byte :=
  bytes.foldl typed []

/-- The byte can be taken: the line has room, and is well formed at its end. -/
def Handles (env : CommandEnv) (line : List Byte) (byte : Byte) : Prop :=
  (byte ≠ delete → line.length < lineBufSize) ∧
    (byte = carriageReturn → WellFormed env line)

/-- Every byte of the stream can be taken. -/
def KeepsBounds (env : Nat → CommandEnv) (stream : Nat → Byte) : Prop :=
  ∀ n, Handles (env ((consumed stream n).count carriageReturn))
    (lineAfter (consumed stream n)) (stream n)

/-- The variables of `main` after some bytes. -/
structure Shows (bytes : List Byte) (shell : Shell) : Prop where
  length : shell.charInLine = (lineAfter bytes).length
  spells : Spells shell.lineBuf 0 (lineAfter bytes)
  commands : shell.commands = bytes.count carriageReturn

theorem lineAfter_concat (bytes : List Byte) (byte : Byte) :
    lineAfter (bytes ++ [byte]) = typed (lineAfter bytes) byte := by
  rw [lineAfter, List.foldl_append]
  rfl

theorem consumed_succ (stream : Nat → Byte) (n : Nat) :
    consumed stream (n + 1) = consumed stream n ++ [stream n] := by
  rw [consumed, List.range_succ, List.map_append]
  rfl

theorem Shows.start (lineBuf stringBuf : Bytes) :
    Shows [] (.start lineBuf stringBuf) where
  length := rfl
  spells := fun _ inside => absurd inside (Nat.not_lt_zero _)
  commands := rfl

section Passes

variable {env : Nat → CommandEnv} {shell next : Shell} {bytes : List Byte}
    {byte : Byte} {fuel : Nat} {turn : Turn}

/-- Behind the stored zero the line is terminated. -/
theorem Shows.terminated (shows : Shows bytes shell) (byte : Byte) :
    Spells (Function.update shell.lineBuf shell.charInLine byte) 0
      (lineAfter bytes ++ [byte]) := by
  have longer := shows.spells.concat byte
  rwa [Nat.zero_add, ← shows.length] at longer

theorem mainTurn_delete :
    ∃ turn, mainTurn env fuel shell delete = some turn ∧
      turn.lineStore = none ∧ turn.parsed = none ∧
        turn.shell = { shell with charInLine := shell.charInLine - 1 } :=
  ⟨_, rfl, rfl, rfl, rfl⟩

theorem mainTurn_char (notEnter : byte ≠ carriageReturn)
    (notDelete : byte ≠ delete) :
    ∃ turn, mainTurn env fuel shell byte = some turn ∧
      turn.lineStore = some shell.charInLine ∧ turn.parsed = none ∧
        turn.shell =
          { shell with
            lineBuf := Function.update shell.lineBuf shell.charInLine byte
            charInLine := shell.charInLine + 1 } := by
  rw [mainTurn, if_neg notEnter, if_neg notDelete]
  exact ⟨_, rfl, rfl, rfl, rfl⟩

/-- A carriage return ends a pass exactly when `parse_cmd` returns. -/
theorem mainTurn_enter_iff :
    mainTurn env fuel shell carriageReturn = some turn ↔
      ∃ parsed,
        parseCmd (env shell.commands)
            (Function.update shell.lineBuf shell.charInLine 0) fuel
            shell.stringBuf = some parsed ∧
          turn =
            { shell :=
                { lineBuf := Function.update shell.lineBuf shell.charInLine 0
                  charInLine := 0, stringBuf := parsed.stringBuf
                  commands := shell.commands + 1 }
              lineStore := some shell.charInLine
              parsed := some parsed
              calls := [.write 1 [newline], .write 1 [carriageReturn]] ++
                parsed.calls ++ [prompt] } := by
  rw [mainTurn, if_pos rfl, Option.map_eq_some_iff]
  exact exists_congr fun parsed => and_congr_right fun _ => eq_comm

/-- A pass keeps the line on the screen and the variables together. -/
theorem Shows.step (shows : Shows bytes shell) (taken : Step env shell byte next) :
    Shows (bytes ++ [byte]) next := by
  obtain ⟨fuel, turn, passes, rfl⟩ := taken
  by_cases enter : byte = carriageReturn
  · subst enter
    obtain ⟨parsed, -, rfl⟩ := mainTurn_enter_iff.1 passes
    have empty : lineAfter (bytes ++ [carriageReturn]) = [] := by
      rw [lineAfter_concat, typed, if_pos rfl]
    refine ⟨?_, ?_, ?_⟩
    · rw [empty]
      rfl
    · rw [empty]
      exact fun _ inside => absurd inside (Nat.not_lt_zero _)
    · rw [List.count_append, List.count_singleton_self, ← shows.commands]
  · have count : (bytes ++ [byte]).count carriageReturn =
        bytes.count carriageReturn := by
      rw [List.count_append, List.count_singleton, if_neg (by simpa using enter)]
      rfl
    by_cases erase : byte = delete
    · subst erase
      obtain ⟨_, passes', -, -, moved⟩ := @mainTurn_delete env shell fuel
      cases Option.some.inj (passes'.symm.trans passes)
      have shorter : lineAfter (bytes ++ [delete]) =
          (lineAfter bytes).dropLast := by
        rw [lineAfter_concat, typed, if_neg enter, if_pos rfl]
      rw [moved]
      refine ⟨?_, ?_, ?_⟩
      · rw [shorter, List.length_dropLast, ← shows.length]
      · intro i inside
        have within := inside
        rw [shorter, List.length_dropLast] at within
        have kept := shows.spells i (by omega)
        simpa only [shorter, List.getElem_dropLast] using kept
      · exact shows.commands.trans count.symm
    · obtain ⟨_, passes', -, -, moved⟩ :=
        @mainTurn_char env shell byte fuel enter erase
      cases Option.some.inj (passes'.symm.trans passes)
      have longer : lineAfter (bytes ++ [byte]) = lineAfter bytes ++ [byte] := by
        rw [lineAfter_concat, typed, if_neg enter, if_neg erase]
      rw [moved]
      refine ⟨?_, ?_, ?_⟩
      · rw [longer, List.length_append, ← shows.length]
        rfl
      · rw [longer]
        exact shows.terminated byte
      · exact shows.commands.trans count.symm

/-- One pass returns and stays inside exactly when its byte can be taken. -/
theorem Shows.handles_iff (shows : Shows bytes shell) (byte : Byte) :
    ((∃ fuel turn, mainTurn env fuel shell byte = some turn) ∧
        ∀ fuel turn, mainTurn env fuel shell byte = some turn →
          turn.Inside shell) ↔
      Handles (env (bytes.count carriageReturn)) (lineAfter bytes) byte := by
  rw [← shows.commands]
  by_cases enter : byte = carriageReturn
  · subst enter
    have spells := shows.terminated 0
    constructor
    · rintro ⟨⟨fuel, turn, passes⟩, inside⟩
      have stays := inside fuel turn passes
      obtain ⟨parsed, parses, rfl⟩ := mainTurn_enter_iff.1 passes
      obtain ⟨within, ends⟩ := parseCmd_within spells parses
      have read := stays.read parsed rfl
      rw [shows.length] at read
      exact ⟨fun _ => shows.length ▸ stays.line _ rfl,
        fun _ => ⟨within.read.1 read, ends⟩⟩
    · rintro ⟨room, formed⟩
      have fits : (lineAfter bytes).length < lineBufSize := room (by decide)
      refine ⟨?_, fun fuel turn passes => ?_⟩
      · obtain ⟨fuel, parsed, parses⟩ :=
          @parseCmd_terminates _ _ shell.stringBuf _ spells (formed rfl)
        exact ⟨fuel, _, mainTurn_enter_iff.2 ⟨parsed, parses, rfl⟩⟩
      · obtain ⟨parsed, parses, rfl⟩ := mainTurn_enter_iff.1 passes
        have within := (parseCmd_within spells parses).1
        refine ⟨?_, ?_, ?_⟩
        · rintro i ⟨⟩
          rwa [shows.length]
        · rintro _ ⟨⟩
          rw [shows.length]
          exact within.read.2 (formed rfl).1
        · rintro _ ⟨⟩
          have store := within.store (formed rfl).1
          have larger : lineBufSize ≤ stringBufSize := by decide
          omega
  · by_cases erase : byte = delete
    · subst erase
      refine iff_of_true ⟨⟨0, _, rfl⟩, fun fuel turn passes => ?_⟩
        ⟨fun other => absurd rfl other, fun same => absurd same enter⟩
      obtain ⟨_, passes', noStore, noCommand, -⟩ :=
        @mainTurn_delete env shell fuel
      cases Option.some.inj (passes'.symm.trans passes)
      refine ⟨?_, ?_, ?_⟩
      · rw [noStore]
        exact fun _ member => absurd member (Option.not_mem_none _)
      · rw [noCommand]
        exact fun _ member => absurd member (Option.not_mem_none _)
      · rw [noCommand]
        exact fun _ member => absurd member (Option.not_mem_none _)
    · have passes := fun fuel => @mainTurn_char env shell byte fuel enter erase
      constructor
      · rintro ⟨⟨fuel, turn, passed⟩, inside⟩
        obtain ⟨_, passes', stored, -, -⟩ := passes fuel
        have line := (inside fuel _ passes').line shell.charInLine
          (by rw [stored]; rfl)
        exact ⟨fun _ => shows.length ▸ line, fun same => absurd same enter⟩
      · rintro ⟨room, -⟩
        obtain ⟨turn, passed, -⟩ := passes 0
        refine ⟨⟨0, turn, passed⟩, fun fuel turn passed => ?_⟩
        obtain ⟨_, passes', stored, noCommand, -⟩ := passes fuel
        cases Option.some.inj (passes'.symm.trans passed)
        refine ⟨?_, ?_, ?_⟩
        · rw [stored]
          rintro i ⟨⟩
          exact shows.length ▸ room erase
        · rw [noCommand]
          exact fun _ member => absurd member (Option.not_mem_none _)
        · rw [noCommand]
          exact fun _ member => absurd member (Option.not_mem_none _)

end Passes

/-! ## Whole streams -/

section Streams

variable {env : Nat → CommandEnv} {stream : Nat → Byte}
    {lineBuf stringBuf : Bytes}

/-- Whatever bytes were taken, the variables show the line they make. -/
theorem shows_of_run {bytes : List Byte} {shell : Shell}
    (run : Run (Step env) (.start lineBuf stringBuf) bytes shell) :
    Shows bytes shell :=
  run.invariant_history (.start lineBuf stringBuf)
    fun _ _ _ _ shows taken => shows.step taken

/-- The last step of a run over one byte more. -/
theorem run_succ {start next : Shell} {n : Nat}
    (run : Run (Step env) start (consumed stream (n + 1)) next) :
    ∃ shell, Run (Step env) start (consumed stream n) shell ∧
      Step env shell (stream n) next := by
  rw [consumed_succ] at run
  generalize bytesEq : consumed stream n ++ [stream n] = bytes at run
  cases run with
  | nil => simp at bytesEq
  | snoc run taken =>
      obtain ⟨rfl, last⟩ := List.append_inj' bytesEq rfl
      cases List.singleton_inj.1 last
      exact ⟨_, run, taken⟩

/-- A shell that stays inside takes only bytes that can be taken. -/
theorem StaysInside.keepsBounds
    (stays : StaysInside env stream (.start lineBuf stringBuf)) :
    KeepsBounds env stream := by
  intro n
  obtain ⟨next, run⟩ := stays.goesOn (n + 1)
  obtain ⟨shell, before, fuel, turn, passes, -⟩ := run_succ run
  exact ((shows_of_run before).handles_iff (stream n)).1
    ⟨⟨fuel, turn, passes⟩,
      fun fuel turn passes => stays.inside n shell fuel turn before passes⟩

/-- Every byte is taken when it can be. -/
theorem KeepsBounds.goesOn (keeps : KeepsBounds env stream) (n : Nat) :
    ∃ shell, Run (Step env) (.start lineBuf stringBuf) (consumed stream n)
      shell := by
  induction n with
  | zero => exact ⟨_, .nil⟩
  | succ n induction =>
      obtain ⟨shell, run⟩ := induction
      obtain ⟨⟨fuel, turn, passes⟩, -⟩ :=
        ((shows_of_run run).handles_iff (stream n)).2 (keeps n)
      rw [consumed_succ]
      exact ⟨turn.shell, .snoc run ⟨fuel, turn, passes, rfl⟩⟩

/--
The shell takes every byte of a stream inside its buffers exactly when a line
never grows beyond its buffer and each finished line is well formed.
-/
theorem staysInside_iff (env : Nat → CommandEnv) (stream : Nat → Byte)
    (lineBuf stringBuf : Bytes) :
    StaysInside env stream (.start lineBuf stringBuf) ↔
      KeepsBounds env stream := by
  constructor
  · exact StaysInside.keepsBounds
  · intro keeps
    exact ⟨keeps.goesOn, fun n shell fuel turn run passes =>
      (((shows_of_run run).handles_iff (stream n)).2 (keeps n)).2 fuel turn
        passes⟩

/-- A command that finds no file. -/
def noFile : CommandEnv where
  opened := -1
  read := fun _ => (0, fun _ => 0)
  lastChar := 0

/-- A key that is never released fills more than the line. -/
theorem heldKey_leaves :
    ¬ StaysInside (fun _ => noFile) (fun _ => 0x61)
      (.start (fun _ => 0) fun _ => 0) := by
  intro stays
  have handles := stays.keepsBounds lineBufSize
  have line : lineAfter (consumed (fun _ => 0x61) lineBufSize) =
      List.replicate lineBufSize 0x61 := by
    decide +kernel
  have room := handles.1 (by decide)
  rw [line, List.length_replicate] at room
  exact Nat.lt_irrefl _ room

end Streams

end TinyRiscvOs.User
