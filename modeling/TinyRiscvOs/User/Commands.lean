import TinyRiscvOs.User.ParseCmd

/-!
# Which lines `parse_cmd` handles

A line that stands in its buffer with a terminating zero is read only up to
that zero, and the command returns, exactly when every quote it looks behind is
closed and, for `cat`, the file cannot be opened or some `read` returns zero.
-/

namespace TinyRiscvOs.User

open TinyRiscvOs.Lib TinyRiscvOs.Lib.Bytes

/-! ## Conditions on a line -/

/-- The quote that `echo` or `edit` looks behind is closed. -/
def QuotesClosed (l : List Byte) : Prop :=
  (echoWord <+: l → Closed (l.drop 4)) ∧
    (editWord <+: l → Closed (afterWord (afterWord (l.drop 4))))

instance (l : List Byte) : Decidable (QuotesClosed l) :=
  inferInstanceAs (Decidable (_ ∧ _))

/-- The file of `cat` cannot be opened, or ends. -/
def CatEnds (env : CommandEnv) : Prop :=
  env.opened = -1 ∨ ∃ k, (env.read k).1 = 0

/-- The lines that are handled inside the buffers. -/
def WellFormed (env : CommandEnv) (l : List Byte) : Prop :=
  QuotesClosed l ∧ (catWord <+: l → CatEnds env)

/-! ## Telling the commands apart -/

section Compare

variable {line : Bytes} {cmd : Nat} {l name : List Byte}

theorem matching_le (spells : Spells line cmd (l ++ [0])) (text : 0 ∉ name) :
    matching line name cmd ≤ l.length := by
  induction name generalizing cmd l with
  | nil => exact Nat.zero_le _
  | cons c name induction =>
      rw [List.mem_cons, not_or] at text
      rw [matching]
      split
      · next same =>
          cases l with
          | nil => exact absurd (spells.head ▸ same) text.1
          | cons d l => exact Nat.succ_le_succ (induction spells.tail text.2)
      · exact Nat.zero_le _

theorem matching_eq_iff (spells : Spells line cmd (l ++ [0]))
    (text : 0 ∉ name) :
    matching line name cmd = name.length ↔ name <+: l := by
  induction name generalizing cmd l with
  | nil => simp [matching]
  | cons c name induction =>
      rw [List.mem_cons, not_or] at text
      rw [matching, List.length_cons]
      cases l with
      | nil =>
          have other : line cmd ≠ c := by
            rw [spells.head]
            exact text.1
          rw [if_neg other]
          simp
      | cons d l =>
          rw [List.cons_prefix_cons, ← induction spells.tail text.2,
            spells.head]
          by_cases same : d = c
          · rw [if_pos same, Nat.add_right_cancel_iff]
            exact ⟨fun rest => ⟨same.symm, rest⟩, And.right⟩
          · rw [if_neg same]
            exact ⟨fun zero => absurd zero (Nat.succ_ne_zero _).symm,
              fun both => absurd both.1.symm same⟩

theorem startsWith_iff (spells : Spells line 0 (l ++ [0]))
    (text : 0 ∉ name) :
    StartsWith line name ↔ name <+: l :=
  matching_eq_iff spells text

theorem comparedEnd_le (spells : Spells line 0 (l ++ [0]))
    (text : 0 ∉ name) :
    comparedEnd line name ≤ l.length + 1 :=
  (min_le_left _ _).trans (Nat.succ_le_succ (matching_le spells text))

/-- The comparisons stay inside the line, so they do not matter for the end. -/
theorem compared_readEnd_le_iff (spells : Spells line 0 (l ++ [0]))
    {words : List (List Byte)} (texts : ∀ name ∈ words, 0 ∉ name)
    (parsed : Parsed) :
    (parsed.compared line words).readEnd ≤ l.length + 1 ↔
      parsed.readEnd ≤ l.length + 1 := by
  have fold : ∀ last,
      words.foldl (fun last word => max last (comparedEnd line word)) last ≤
        l.length + 1 ↔ last ≤ l.length + 1 := by
    induction words with
    | nil => exact fun _ => Iff.rfl
    | cons name words induction =>
        intro last
        rw [List.foldl_cons, induction fun other member =>
          texts other (List.mem_cons_of_mem _ member)]
        exact max_le_iff.trans (and_iff_left
          (comparedEnd_le spells (texts name List.mem_cons_self)))
  exact fold parsed.readEnd

/-- A line stands behind the word it starts with. -/
theorem spells_drop (spells : Spells line 0 (l ++ [0])) (starts : name <+: l) :
    Spells line name.length (l.drop name.length ++ [0]) ∧
      name.length + (l.drop name.length).length = l.length := by
  obtain ⟨rest, rfl⟩ := starts
  rw [List.append_assoc] at spells
  have behind := spells.right
  rw [Nat.zero_add] at behind
  rw [List.drop_left, List.length_append]
  exact ⟨behind, rfl⟩

end Compare

/-! ## Fetching a string -/

section Fetch

variable {line stringBuf : Bytes} {fuel cmd : Nat} {l : List Byte}
    {result : Fetched}

/-- `get_string` stays inside the line exactly when the quote is closed. -/
theorem getString_bounds (spells : Spells line cmd (l ++ [0]))
    (found : getString line fuel cmd stringBuf = some result) :
    (result.readEnd ≤ cmd + l.length + 1 ↔ Closed l) ∧
      (Closed l → result.storeEnd ≤ l.length + 1) := by
  have blanks := length_skipBlanks l
  by_cases opens : (skipBlanks l).head? = some quote
  · obtain ⟨tail, split⟩ := List.head?_eq_some_iff.1 opens
    have closed : Closed l ↔ quote ∈ tail := by
      rw [Closed, split]
      simp
    rw [split, List.length_cons] at blanks
    by_cases closes : quote ∈ tail
    · rw [getString_quoted spells split closes] at found
      split at found
      · cases Option.some.inj found
        have inside : (tail.takeWhile inQuotes).length ≤ tail.length :=
      (List.takeWhile_prefix inQuotes).length_le
        refine ⟨iff_of_true ?_ (closed.2 closes), fun _ => ?_⟩
        · simp only [fetchedAt, fetched]
          omega
        · simp only [fetchedAt, fetched]
          omega
      · cases found
    · have past := getString_open spells split closes found
      exact ⟨iff_of_false (Nat.not_le.2 past) (mt closed.1 closes),
        fun isClosed => absurd (closed.1 isClosed) closes⟩
  · rw [getString_plain spells opens] at found
    split at found
    · have held := getParam_holds (skip_spells spells) found
      have blanksAgain := length_skipBlanks (skipBlanks l)
      have words := length_word (skipBlanks l)
      refine ⟨iff_of_true ?_ fun opened => absurd opened opens, fun _ => ?_⟩
      · rw [held.readEnd]
        omega
      · rw [held.storeEnd]
        omega
    · cases found

/-- With the quote closed `get_string` returns a terminated string. -/
theorem getString_terminates (spells : Spells line cmd (l ++ [0]))
    (closed : Closed l) (enough : l.length < fuel) :
    ∃ result text stop,
      getString line fuel cmd stringBuf = some result ∧
        result.Holds text stop ∧ text.length ≤ l.length := by
  have blanks := length_skipBlanks l
  by_cases opens : (skipBlanks l).head? = some quote
  · obtain ⟨tail, split⟩ := List.head?_eq_some_iff.1 opens
    have closes : quote ∈ tail := by
      have member := closed opens
      rwa [split] at member
    have inside : (tail.takeWhile inQuotes).length ≤ tail.length :=
      (List.takeWhile_prefix inQuotes).length_le
    have quoted := skip_spells spells
    rw [split, List.cons_append] at quoted
    have text := quoted.tail.left
    rw [← List.takeWhile_append_dropWhile (p := inQuotes) (l := tail)] at text
    rw [split, List.length_cons] at blanks
    rw [getString_quoted spells split closes, if_pos (by omega)]
    exact ⟨_, _, _, rfl, fetchedAt_holds text.left rfl stringBuf, by omega⟩
  · obtain ⟨result, found⟩ := @getParam_terminates line stringBuf fuel
      (cmd + (l.takeWhile isBlank).length) (skipBlanks l) (skip_spells spells)
      (by omega)
    have held := getParam_holds (skip_spells spells) found
    have blanksAgain := length_skipBlanks (skipBlanks l)
    have words := length_word (skipBlanks l)
    rw [getString_plain spells opens, if_pos (by omega)]
    exact ⟨result, _, _, found, held, by omega⟩

/-- The length of a fetched string is found. -/
theorem Fetched.Holds.strlen {text : List Byte} {stop : Nat}
    (held : result.Holds text stop) (enough : text.length < fuel) :
    ∃ len, User.strlen result.stringBuf fuel 0 = some len := by
  have inside : (text.takeWhile inString).length ≤ text.length :=
      (List.takeWhile_prefix inString).length_le
  exact ⟨_, by rw [strlen_spells held.spells, if_pos (by omega)]⟩

end Fetch

/-! ## The arguments of `edit` -/

section EditArgument

variable {line stringBuf : Bytes} {fuel cmd : Nat} {l : List Byte}
    {argument : Argument}

theorem editArgument_eq
    {fetch : Bytes → Nat → Nat → Bytes → Option Fetched}
    (spells : Spells line cmd (l ++ [0]))
    (found : editArgument fetch line fuel cmd stringBuf = some argument) :
    fetch line fuel (cmd + (l.takeWhile isBlank).length) stringBuf =
        some argument.fetched ∧
      ∃ len, strlen argument.fetched.stringBuf fuel 0 = some len ∧
        argument.cmd = cmd + (l.takeWhile isBlank).length + len := by
  rw [editArgument, isBlankInLine_eq, scanWhile_terminated spells rfl] at found
  split at found
  · simp only [Option.bind_eq_bind, Option.bind_some,
      Option.bind_eq_some_iff] at found
    obtain ⟨temp, fetches, len, measured, made⟩ := found
    cases Option.some.inj made
    exact ⟨fetches, len, measured, rfl⟩
  · cases found

/-- After an argument `cmd` points at what follows the word. -/
theorem editArgument_param (spells : Spells line cmd (l ++ [0]))
    (found : editArgument getParam line fuel cmd stringBuf = some argument) :
    Spells line argument.cmd (afterWord l ++ [0]) ∧
      argument.cmd + (afterWord l).length = cmd + l.length ∧
      argument.fetched.readEnd ≤ cmd + l.length + 1 ∧
      argument.fetched.storeEnd ≤ l.length + 1 := by
  obtain ⟨fetches, len, measured, moved⟩ := editArgument_eq spells found
  have skipped := skip_spells spells
  have held := getParam_holds skipped fetches
  have noBlanks : (skipBlanks l).takeWhile isBlank = [] := by
    have lengths := length_skipBlanks (skipBlanks l)
    rw [skipBlanks_skipBlanks] at lengths
    exact List.eq_nil_of_length_eq_zero (by omega)
  have sameWord : word (skipBlanks l) = word l := by
    rw [word, word, skipBlanks_skipBlanks]
  rw [noBlanks, sameWord, List.length_nil, Nat.add_zero] at held
  rw [strlen_spells held.spells, inString_word] at measured
  split at measured
  · cases Option.some.inj measured
    have blanks := length_skipBlanks l
    have words := length_word l
    have behind := @Spells.dropWhile_terminated inWord _ _ _ _ skipped rfl
    rw [moved, held.readEnd, held.storeEnd]
    exact ⟨behind, by omega, by omega, by omega⟩
  · cases measured

theorem editArgument_terminates
    {fetch : Bytes → Nat → Nat → Bytes → Option Fetched} {result : Fetched}
    {len : Nat} (spells : Spells line cmd (l ++ [0])) (enough : l.length < fuel)
    (fetches : fetch line fuel (cmd + (l.takeWhile isBlank).length) stringBuf =
      some result)
    (measured : strlen result.stringBuf fuel 0 = some len) :
    ∃ argument,
      editArgument fetch line fuel cmd stringBuf = some argument := by
  have inside : (l.takeWhile isBlank).length ≤ l.length :=
      (List.takeWhile_prefix isBlank).length_le
  rw [editArgument, isBlankInLine_eq, scanWhile_terminated spells rfl,
    if_pos (by omega)]
  simp only [Option.bind_eq_bind, Option.bind_some, fetches, measured]
  exact ⟨_, rfl⟩

theorem editArgument_param_terminates (spells : Spells line cmd (l ++ [0]))
    (enough : l.length < fuel) :
    ∃ argument,
      editArgument getParam line fuel cmd stringBuf = some argument := by
  have blanks := length_skipBlanks l
  have skipped := skip_spells spells
  obtain ⟨result, found⟩ :=
    @getParam_terminates _ stringBuf _ _ _ skipped
      (Nat.lt_of_le_of_lt (by omega) enough)
  have held := getParam_holds skipped found
  have words := length_word (skipBlanks l)
  have blanksAgain := length_skipBlanks (skipBlanks l)
  obtain ⟨len, measured⟩ := @Fetched.Holds.strlen fuel _ _ _ held (by omega)
  exact editArgument_terminates spells enough found measured

end EditArgument

/-! ## The commands -/

/-- Every line, and `string_buf` only for a closed quote. -/
structure Parsed.Within (parsed : Parsed) (closed : Prop)
    (readLimit storeLimit : Nat) : Prop where
  read : parsed.readEnd ≤ readLimit ↔ closed
  store : closed → parsed.storeEnd ≤ storeLimit

section Commands

variable {env : CommandEnv} {line stringBuf : Bytes} {fuel : Nat}
    {l : List Byte} {parsed : Parsed}

theorem echoCommand_within (spells : Spells line 4 (l ++ [0]))
    (found : echoCommand line fuel stringBuf = some parsed) :
    parsed.Within (Closed l) (4 + l.length + 1) (4 + l.length + 1) := by
  simp only [echoCommand, Option.bind_eq_bind,
    Option.bind_eq_some_iff] at found
  obtain ⟨content, fetches, len, -, made⟩ := found
  cases Option.some.inj made
  have bounds := getString_bounds spells fetches
  exact ⟨bounds.1, fun closed => (bounds.2 closed).trans (by omega)⟩

theorem echoCommand_terminates (spells : Spells line 4 (l ++ [0]))
    (closed : Closed l) (enough : l.length < fuel) :
    ∃ parsed, echoCommand line fuel stringBuf = some parsed := by
  obtain ⟨content, text, stop, fetches, held, short⟩ :=
    @getString_terminates line stringBuf _ _ _ spells closed enough
  obtain ⟨len, measured⟩ := @Fetched.Holds.strlen fuel _ _ _ held (by omega)
  simp only [echoCommand, Option.bind_eq_bind, Option.bind_some, fetches,
    measured]
  exact ⟨_, rfl⟩

/-- The loop of `cat` ends only after a `read` that returned zero. -/
theorem catLoop_ends {k : Nat} {lastChar : Byte} {calls : List UserCall}
    (found : catLoop env fuel k lastChar = some calls) :
    ∃ k, (env.read k).1 = 0 := by
  induction fuel generalizing k lastChar calls with
  | zero => cases found
  | succ fuel induction =>
      by_cases zero : (env.read k).1 = 0
      · exact ⟨k, zero⟩
      · simp only [catLoop, if_neg zero, Option.map_eq_some_iff] at found
        obtain ⟨rest, rests, -⟩ := found
        exact induction rests

theorem catLoop_terminates {k count : Nat} {lastChar : Byte}
    (zero : (env.read (k + count)).1 = 0) (enough : count < fuel) :
    ∃ calls, catLoop env fuel k lastChar = some calls := by
  induction count generalizing fuel k lastChar with
  | zero =>
      obtain ⟨fuel, rfl⟩ := Nat.exists_eq_succ_of_ne_zero
        (Nat.ne_of_gt enough)
      rw [Nat.add_zero] at zero
      exact ⟨_, by rw [catLoop, if_pos zero]⟩
  | succ count induction =>
      obtain ⟨fuel, rfl⟩ := Nat.exists_eq_succ_of_ne_zero
        (Nat.ne_of_gt (Nat.zero_lt_of_lt enough))
      by_cases now : (env.read k).1 = 0
      · exact ⟨_, by rw [catLoop, if_pos now]⟩
      · rw [Nat.add_comm count 1, ← Nat.add_assoc] at zero
        obtain ⟨calls, rest⟩ := @induction fuel (k + 1)
          ((catBytes (env.read k)).getLastD lastChar) zero (by omega)
        exact ⟨_, by simp only [catLoop, if_neg now, rest]; rfl⟩

theorem catCommand_within (spells : Spells line 3 (l ++ [0]))
    (found : catCommand env line fuel stringBuf = some parsed) :
    parsed.readEnd ≤ 3 + l.length + 1 ∧ parsed.storeEnd ≤ 3 + l.length + 1 ∧
      CatEnds env := by
  simp only [catCommand, Option.bind_eq_bind,
    Option.bind_eq_some_iff] at found
  obtain ⟨filename, fetches, len, -, calls, called, made⟩ := found
  cases Option.some.inj made
  have held := getParam_holds spells fetches
  have blanks := length_skipBlanks l
  have words := length_word l
  have read := held.readEnd
  have store := held.storeEnd
  have ends : CatEnds env := by
    rw [catCalls] at called
    split at called
    · next refused => exact .inl refused
    · obtain ⟨rest, loops, -⟩ := Option.map_eq_some_iff.1 called
      exact .inr (catLoop_ends loops)
  exact ⟨show filename.readEnd ≤ _ by omega,
    show filename.storeEnd ≤ _ by omega, ends⟩

theorem catCommand_terminates (spells : Spells line 3 (l ++ [0]))
    (ends : CatEnds env) :
    ∃ fuel parsed, catCommand env line fuel stringBuf = some parsed := by
  have fetched : ∀ fuel, l.length < fuel → ∃ filename len,
      getParam line fuel 3 stringBuf = some filename ∧
        strlen filename.stringBuf fuel 0 = some len := by
    intro fuel enough
    obtain ⟨filename, fetches⟩ :=
      @getParam_terminates line stringBuf _ _ _ spells enough
    have words := length_word l
    have blanks := length_skipBlanks l
    obtain ⟨len, measured⟩ := @Fetched.Holds.strlen fuel _ _ _
      (getParam_holds spells fetches) (by omega)
    exact ⟨filename, len, fetches, measured⟩
  by_cases refused : env.opened = -1
  · obtain ⟨filename, len, fetches, measured⟩ :=
      fetched (l.length + 1) (Nat.lt_succ_self _)
    refine ⟨l.length + 1, ?_⟩
    simp only [catCommand, Option.bind_eq_bind, Option.bind_some, fetches,
      measured, catCalls, if_pos refused]
    exact ⟨_, rfl⟩
  · obtain ⟨k, zero⟩ := ends.resolve_left refused
    obtain ⟨filename, len, fetches, measured⟩ :=
      fetched (l.length + k + 1) (by omega)
    rw [← Nat.zero_add k] at zero
    obtain ⟨calls, loops⟩ := @catLoop_terminates env (l.length + k + 1) 0 k
      env.lastChar zero (by omega)
    refine ⟨l.length + k + 1, ?_⟩
    simp only [catCommand, Option.bind_eq_bind, Option.bind_some, fetches,
      measured, catCalls, if_neg refused, loops, Option.map_some]
    exact ⟨_, rfl⟩

theorem editCommand_within (spells : Spells line 4 (l ++ [0]))
    (found : editCommand env line fuel stringBuf = some parsed) :
    parsed.Within (Closed (afterWord (afterWord l))) (4 + l.length + 1)
      (4 + l.length + 1) := by
  simp only [editCommand, Option.bind_eq_bind,
    Option.bind_eq_some_iff] at found
  obtain ⟨filename, first, offset, second, content, third, made⟩ := found
  cases Option.some.inj made
  obtain ⟨spells₁, position₁, read₁, store₁⟩ := editArgument_param spells first
  obtain ⟨spells₂, position₂, read₂, store₂⟩ :=
    editArgument_param spells₁ second
  have closed : Closed (skipBlanks (afterWord (afterWord l))) ↔
      Closed (afterWord (afterWord l)) := by
    rw [Closed, Closed, skipBlanks_skipBlanks]
  have bounds := getString_bounds (skip_spells spells₂)
    (editArgument_eq spells₂ third).1
  have blanks := length_skipBlanks (afterWord (afterWord l))
  rw [closed] at bounds
  have limit : offset.cmd +
      ((afterWord (afterWord l)).takeWhile isBlank).length +
        (skipBlanks (afterWord (afterWord l))).length = 4 + l.length := by
    omega
  rw [limit] at bounds
  refine ⟨?_, fun isClosed => ?_⟩
  · rw [← bounds.1, max_le_iff, max_le_iff]
    exact ⟨fun all => all.2.2, fun last => ⟨by omega, by omega, last⟩⟩
  · have last := bounds.2 isClosed
    exact max_le (by omega) (max_le (by omega) (by omega))

theorem editCommand_terminates (spells : Spells line 4 (l ++ [0]))
    (closed : Closed (afterWord (afterWord l))) (enough : l.length < fuel) :
    ∃ parsed, editCommand env line fuel stringBuf = some parsed := by
  obtain ⟨filename, first⟩ :=
    @editArgument_param_terminates line stringBuf _ _ _ spells enough
  obtain ⟨spells₁, position₁, -, -⟩ := editArgument_param spells first
  have words₁ := length_word l
  have blanks₁ := length_skipBlanks l
  obtain ⟨offset, second⟩ := @editArgument_param_terminates line
    filename.fetched.stringBuf fuel _ _ spells₁ (by omega)
  obtain ⟨spells₂, position₂, -, -⟩ := editArgument_param spells₁ second
  have words₂ := length_word (afterWord l)
  have blanks₂ := length_skipBlanks (afterWord l)
  have blanks₃ := length_skipBlanks (afterWord (afterWord l))
  have closed₃ : Closed (skipBlanks (afterWord (afterWord l))) := by
    rwa [Closed, skipBlanks_skipBlanks]
  obtain ⟨result, text, stop, fetches, held, short⟩ :=
    @getString_terminates line offset.fetched.stringBuf fuel _ _
      (skip_spells spells₂) closed₃ (by omega)
  obtain ⟨len, measured⟩ := @Fetched.Holds.strlen fuel _ _ _ held (by omega)
  obtain ⟨content, third⟩ :=
    editArgument_terminates spells₂ (by omega) fetches measured
  simp only [editCommand, Option.bind_eq_bind, Option.bind_some, first, second,
    third]
  exact ⟨_, rfl⟩

theorem unknownCommand_within (spells : Spells line 0 (l ++ [0]))
    (found : unknownCommand line fuel stringBuf = some parsed) :
    parsed.readEnd ≤ l.length + 1 ∧ parsed.storeEnd = 0 := by
  rw [unknownCommand, strlen_spells spells] at found
  have inside : (l.takeWhile inString).length ≤ l.length :=
    (List.takeWhile_prefix inString).length_le
  split at found
  · cases Option.some.inj found
    exact ⟨Nat.succ_le_succ inside, rfl⟩
  · cases found

theorem unknownCommand_terminates (spells : Spells line 0 (l ++ [0]))
    (enough : l.length < fuel) :
    ∃ parsed, unknownCommand line fuel stringBuf = some parsed := by
  have inside : (l.takeWhile inString).length ≤ l.length :=
    (List.takeWhile_prefix inString).length_le
  rw [unknownCommand, strlen_spells spells, if_pos (by omega)]
  exact ⟨_, rfl⟩

end Commands

/-! ## `parse_cmd` -/

theorem editWord_of_echoWord {l : List Byte} (echo : echoWord <+: l) :
    ¬ editWord <+: l := by
  obtain ⟨rest, rfl⟩ := echo
  simp [echoWord, editWord]

theorem editWord_of_catWord {l : List Byte} (cat : catWord <+: l) :
    ¬ editWord <+: l := by
  obtain ⟨rest, rfl⟩ := cat
  simp [catWord, editWord]

theorem catWord_of_echoWord {l : List Byte} (echo : echoWord <+: l) :
    ¬ catWord <+: l := by
  obtain ⟨rest, rfl⟩ := echo
  simp [echoWord, catWord]

section ParseCmd

/-- What follows `echo`. -/
theorem spells_echo {line : Bytes} {l : List Byte}
    (spells : Spells line 0 (l ++ [0])) (echo : echoWord <+: l) :
    Spells line 4 (l.drop 4 ++ [0]) ∧ 4 + (l.drop 4).length = l.length :=
  spells_drop spells echo

/-- What follows `cat`. -/
theorem spells_cat {line : Bytes} {l : List Byte}
    (spells : Spells line 0 (l ++ [0])) (cat : catWord <+: l) :
    Spells line 3 (l.drop 3 ++ [0]) ∧ 3 + (l.drop 3).length = l.length :=
  spells_drop spells cat

/-- What follows `edit`. -/
theorem spells_edit {line : Bytes} {l : List Byte}
    (spells : Spells line 0 (l ++ [0])) (edit : editWord <+: l) :
    Spells line 4 (l.drop 4 ++ [0]) ∧ 4 + (l.drop 4).length = l.length :=
  spells_drop spells edit

variable {env : CommandEnv} {line stringBuf : Bytes} {fuel : Nat}
    {l : List Byte} {parsed : Parsed}

/-- `parse_cmd` returns only when `cat` ends, and stays inside the line exactly
when the quotes are closed. -/
theorem parseCmd_within (spells : Spells line 0 (l ++ [0]))
    (found : parseCmd env line fuel stringBuf = some parsed) :
    parsed.Within (QuotesClosed l) (l.length + 1) (l.length + 1) ∧
      (catWord <+: l → CatEnds env) := by
  have words : ∀ name ∈ [echoWord, catWord, editWord], 0 ∉ name := by decide
  have compared : ∀ names, names ⊆ [echoWord, catWord, editWord] →
      ∀ parsed : Parsed,
        (parsed.compared line names).readEnd ≤ l.length + 1 ↔
          parsed.readEnd ≤ l.length + 1 :=
    fun names subset => compared_readEnd_le_iff spells
      fun name member => words name (subset member)
  rw [parseCmd] at found
  simp only [startsWith_iff spells (words echoWord (by decide)),
    startsWith_iff spells (words catWord (by decide)),
    startsWith_iff spells (words editWord (by decide))] at found
  split at found
  · next echo =>
      obtain ⟨inner, runs, rfl⟩ := Option.map_eq_some_iff.1 found
      obtain ⟨rest, length⟩ := spells_echo spells echo
      have within := echoCommand_within rest runs
      rw [length] at within
      have closed : QuotesClosed l ↔ Closed (l.drop 4) :=
        (and_iff_left fun edit => absurd edit (editWord_of_echoWord echo)).trans
          (forall_prop_of_true echo)
      rw [closed]
      exact ⟨⟨(compared _ (by decide) inner).trans within.read, within.store⟩,
        fun cat => absurd cat (catWord_of_echoWord echo)⟩
  · next notEcho =>
    split at found
    · next cat =>
        obtain ⟨inner, runs, rfl⟩ := Option.map_eq_some_iff.1 found
        obtain ⟨rest, length⟩ := spells_cat spells cat
        obtain ⟨read, store, ends⟩ := catCommand_within rest runs
        rw [length] at read store
        have closed : QuotesClosed l :=
          ⟨fun echo => absurd echo notEcho,
            fun edit => absurd edit (editWord_of_catWord cat)⟩
        exact ⟨⟨iff_of_true ((compared _ (by decide) inner).2 read) closed,
          fun _ => store⟩, fun _ => ends⟩
    · next notCat =>
      split at found
      · next edit =>
          obtain ⟨inner, runs, rfl⟩ := Option.map_eq_some_iff.1 found
          obtain ⟨rest, length⟩ := spells_edit spells edit
          have within := editCommand_within rest runs
          rw [length] at within
          have closed : QuotesClosed l ↔
              Closed (afterWord (afterWord (l.drop 4))) :=
            (and_iff_right fun echo => absurd echo notEcho).trans
              (forall_prop_of_true edit)
          rw [closed]
          exact ⟨⟨(compared _ (by decide) inner).trans within.read,
            within.store⟩, fun cat => absurd cat notCat⟩
      · next notEdit =>
          obtain ⟨inner, runs, rfl⟩ := Option.map_eq_some_iff.1 found
          obtain ⟨read, store⟩ := unknownCommand_within spells runs
          have closed : QuotesClosed l :=
            ⟨fun echo => absurd echo notEcho, fun edit => absurd edit notEdit⟩
          exact ⟨⟨iff_of_true ((compared _ (by decide) inner).2 read) closed,
            fun _ => store.trans_le (Nat.zero_le _)⟩,
            fun cat => absurd cat notCat⟩

/-- `parse_cmd` returns on every well-formed line. -/
theorem parseCmd_terminates (spells : Spells line 0 (l ++ [0]))
    (formed : WellFormed env l) :
    ∃ fuel parsed, parseCmd env line fuel stringBuf = some parsed := by
  have words : ∀ name ∈ [echoWord, catWord, editWord], 0 ∉ name := by decide
  simp only [parseCmd, startsWith_iff spells (words echoWord (by decide)),
    startsWith_iff spells (words catWord (by decide)),
    startsWith_iff spells (words editWord (by decide))]
  by_cases echo : echoWord <+: l
  · obtain ⟨rest, length⟩ := spells_echo spells echo
    obtain ⟨parsed, runs⟩ := @echoCommand_terminates line stringBuf _ _ rest
      (formed.1.1 echo) (Nat.lt_succ_self _)
    exact ⟨_, _, by rw [if_pos echo, runs]; rfl⟩
  · by_cases cat : catWord <+: l
    · obtain ⟨rest, length⟩ := spells_cat spells cat
      obtain ⟨fuel, parsed, runs⟩ :=
        @catCommand_terminates env line stringBuf _ rest (formed.2 cat)
      exact ⟨fuel, _, by rw [if_neg echo, if_pos cat, runs]; rfl⟩
    · by_cases edit : editWord <+: l
      · obtain ⟨rest, length⟩ := spells_edit spells edit
        obtain ⟨parsed, runs⟩ := @editCommand_terminates env line stringBuf _ _
          rest (formed.1.2 edit) (Nat.lt_succ_self _)
        exact ⟨_, _, by rw [if_neg echo, if_neg cat, if_pos edit, runs]; rfl⟩
      · obtain ⟨parsed, runs⟩ := @unknownCommand_terminates line stringBuf _ _
          spells (Nat.lt_succ_self _)
        exact ⟨_, _, by
          rw [if_neg echo, if_neg cat, if_neg edit, runs]; rfl⟩

end ParseCmd

end TinyRiscvOs.User
