import ExistentOS.Machine

/-!
# Command lines

The functions of the terminal that take command lines apart. They read strings
through pointers and have no result when a loop would run off its object. The
words of a line are places in the static line buffer, into which the source puts
terminators behind the words it finds.
-/

namespace ExistentOS.Terminal

open Programs Terminated

variable {σ : Type}

/-- What `terminal_parse_command` takes for a blank between words. -/
def isBlank (unit : CHAR16) : Bool := unit = space || unit = tab

/-- A unit of a word of the line buffer. Zeros end words there, because parsing has stored them
between words. -/
def isWord (unit : CHAR16) : Bool := unit ≠ 0 && !isBlank unit

/-- `terminal_match_command`: the name, followed by the end or by a space. -/
def terminalMatchCommand : Memory → Memory → Option Bool
  | left :: command, right :: name =>
    if left ≠ 0 ∧ right ≠ 0 ∧ left = right then terminalMatchCommand command name
    else some (right = 0 && (left = 0 || left = space))
  | _, _ => none

/-- A command matches its own name, whatever its name is. -/
theorem terminalMatchCommand_self (name rest : Text) (free : (0 : CHAR16) ∉ name) :
    terminalMatchCommand (name ++ 0 :: rest) (name ++ [0]) = some true := by
  induction name with
  | nil => simp [terminalMatchCommand]
  | cons unit later ih =>
    have nonzero : unit ≠ 0 := fun zero => free (zero ▸ List.mem_cons_self)
    have laterFree : (0 : CHAR16) ∉ later := fun member => free (List.mem_cons_of_mem unit member)
    simp only [List.cons_append, terminalMatchCommand, nonzero, ne_eq, not_false_eq_true, and_self,
      if_true]
    exact ih laterFree

/-- Two strings are matched within their terminators, so matching overruns neither. -/
theorem terminalMatchCommand_ends {command name : Memory} (ends : (0 : CHAR16) ∈ command)
    (nameEnds : (0 : CHAR16) ∈ name) : terminalMatchCommand command name ≠ none := by
  induction command generalizing name with
  | nil => exact absurd ends List.not_mem_nil
  | cons left command ih =>
    cases name with
    | nil => exact absurd nameEnds List.not_mem_nil
    | cons right name =>
      rw [terminalMatchCommand]
      by_cases same : left ≠ 0 ∧ right ≠ 0 ∧ left = right
      · rw [if_pos same]
        exact ih ((List.mem_cons.mp ends).resolve_left (Ne.symm same.1))
          ((List.mem_cons.mp nameEnds).resolve_left (Ne.symm same.2.1))
      · rw [if_neg same]
        exact Option.some_ne_none _

/-- A string that matches a name is no shorter. -/
theorem terminalMatchCommand_length (command name : Text) (free : (0 : CHAR16) ∉ name)
    (matched : terminalMatchCommand (command ++ [0]) (name ++ [0]) = some true) :
    name.length ≤ command.length := by
  induction name generalizing command with
  | nil => exact Nat.zero_le _
  | cons right name ih =>
    have nonzero : right ≠ 0 := fun zero => free (zero ▸ List.mem_cons_self)
    cases command with
    | nil =>
      rw [List.nil_append, List.cons_append, terminalMatchCommand,
        if_neg (fun same => same.1 rfl)] at matched
      simp [nonzero] at matched
    | cons left command =>
      rw [List.cons_append, List.cons_append, terminalMatchCommand] at matched
      by_cases same : left ≠ 0 ∧ right ≠ 0 ∧ left = right
      · rw [if_pos same] at matched
        have tail := ih command (fun member => free (List.mem_cons_of_mem right member)) matched
        exact Nat.succ_le_succ tail
      · rw [if_neg same] at matched
        simp [nonzero] at matched

/-- A match reads the command up to its terminator only. -/
theorem terminalMatchCommand_reads (name : Memory) :
    ReadsString fun command => terminalMatchCommand command name := by
  intro text rest free
  induction text generalizing name with
  | nil => cases name <;> simp [terminalMatchCommand]
  | cons unit tail ih =>
    have tailFree : (0 : CHAR16) ∉ tail := fun member => free (List.mem_cons_of_mem unit member)
    cases name with
    | nil => rfl
    | cons right name =>
      simp only [List.cons_append, terminalMatchCommand]
      split
      · exact ih name tailFree
      · rfl

/-- The first of some names that a command matches, tried in their order. -/
def matchedName (command : Memory) : List String → Option (Option String)
  | [] => some none
  | name :: rest => do
    if ← terminalMatchCommand command (constant name) then return some name
    matchedName command rest

/-- Matching a command that ends overruns nothing, since every name ends too. -/
theorem matchedName_ends {command : Memory} (ends : (0 : CHAR16) ∈ command)
    (names : List String) : matchedName command names ≠ none := by
  induction names with
  | nil => exact Option.some_ne_none none
  | cons name rest ih =>
    obtain ⟨isMatch, found⟩ := Option.ne_none_iff_exists'.mp
      (terminalMatchCommand_ends ends (constant_ends name))
    rw [matchedName, found, Option.bind_eq_bind, Option.bind_some]
    cases isMatch with
    | true => exact Option.some_ne_none (some name)
    | false => exact ih

/-- Matching reads the command up to its terminator only. -/
theorem matchedName_reads (names : List String) :
    ReadsString fun command => matchedName command names := by
  intro text rest free
  induction names with
  | nil => rfl
  | cons name later ih =>
    have same := terminalMatchCommand_reads (constant name) text rest free
    beta_reduce at same ih ⊢
    rw [matchedName, matchedName, same, ih]

/-- A matched name is one of the names. -/
theorem matchedName_mem {command : Memory} {names : List String} {name : String}
    (found : matchedName command names = some (some name)) : name ∈ names := by
  induction names with
  | nil => cases found
  | cons first rest ih =>
    simp only [matchedName, Option.bind_eq_bind, Option.bind_eq_some_iff] at found
    obtain ⟨isMatch, _, chosen⟩ := found
    cases isMatch with
    | true =>
      have same : first = name := by simpa using chosen
      rw [same]
      exact List.mem_cons_self
    | false => exact List.mem_cons_of_mem first (ih (by simpa using chosen))

/-- What is left of a string behind its leading units of a kind. -/
def skipWhile (kind : CHAR16 → Bool) : Memory → Option Memory
  | [] => none
  | unit :: rest => if kind unit then skipWhile kind rest else some (unit :: rest)

/-- `terminal_command_args`. It knows spaces only, where `terminal_parse_command` knows tabs as
well. -/
def terminalCommandArgs (command : Memory) : Option Memory := do
  let behind ← skipWhile (fun unit => unit ≠ 0 && unit ≠ space) command
  skipWhile (fun unit => unit = space) behind

/-- A kind without the terminator is skipped within the string. -/
theorem skipWhile_ends (kind : CHAR16 → Bool) (stops : kind 0 = false) {memory : Memory}
    (ends : (0 : CHAR16) ∈ memory) :
    ∃ rest, skipWhile kind memory = some rest ∧ (0 : CHAR16) ∈ rest := by
  induction memory with
  | nil => exact absurd ends List.not_mem_nil
  | cons unit later ih =>
    rw [skipWhile]
    by_cases skipped : kind unit = true
    · have solid : unit ≠ 0 := by
        rintro rfl
        rw [stops] at skipped
        cases skipped
      rw [if_pos skipped]
      exact ih ((List.mem_cons.mp ends).resolve_left (Ne.symm solid))
    · rw [if_neg skipped]
      exact ⟨unit :: later, rfl, ends⟩

/-- The arguments of a command that ends are found and end. -/
theorem terminalCommandArgs_ends {command : Memory} (ends : (0 : CHAR16) ∈ command) :
    ∃ args, terminalCommandArgs command = some args ∧ (0 : CHAR16) ∈ args := by
  obtain ⟨behind, skipped, behindEnds⟩ :=
    skipWhile_ends (fun unit => unit ≠ 0 && unit ≠ space) (by decide) ends
  obtain ⟨args, found, argsEnd⟩ :=
    skipWhile_ends (fun unit => unit = space) (by decide) behindEnds
  exact ⟨args, by rw [terminalCommandArgs, skipped]; exact found, argsEnd⟩

/-- `terminal_drive_prefix`: the drive letter in front of a colon. Every capital letter is one. -/
def terminalDrivePrefix : Memory → Option (Option CHAR16)
  | [] => none
  | drive :: rest =>
    if 0x41 ≤ drive ∧ drive ≤ 0x5A then
      match rest with
      | [] => none
      | colon :: _ => some (if colon = 0x3A then some drive else none)
    else some none

/-- Reading a drive letter overruns no path that ends. -/
theorem terminalDrivePrefix_ends {path : Memory} (ends : (0 : CHAR16) ∈ path) :
    terminalDrivePrefix path ≠ none := by
  cases path with
  | nil => exact absurd ends List.not_mem_nil
  | cons drive rest =>
    simp only [terminalDrivePrefix]
    by_cases letter : 0x41 ≤ drive ∧ drive ≤ 0x5A
    · rw [if_pos letter]
      cases rest with
      | nil =>
        obtain rfl : 0 = drive := List.mem_singleton.mp ends
        exact absurd letter.1 (by decide)
      | cons colon _ => exact Option.some_ne_none _
    · rw [if_neg letter]
      exact Option.some_ne_none none

/-- The drive letter is read up to the terminator only. -/
theorem terminalDrivePrefix_reads : ReadsString terminalDrivePrefix := by
  intro text rest free
  rcases text with _ | ⟨drive, _ | ⟨colon, tail⟩⟩
  · simp [terminalDrivePrefix]
  · simp [terminalDrivePrefix]
  · rfl

/-! ## Words of a line -/

/-- Move a cursor over units of a kind in the line buffer. -/
def advance (kind : CHAR16 → Bool) (buffer : Vector CHAR16 128) (cursor : Nat) : Option Nat :=
  (skipWhile kind (buffer.toList.drop cursor)).map fun rest => terminalMaxLine - rest.length

/-- The loop of `terminal_parse_command` over the words from a cursor on: the
places of at most so many words, and the buffer with their terminators. -/
def words : Nat → Vector CHAR16 128 → Nat → Option (List Nat × Vector CHAR16 128)
  | 0, buffer, _ => some ([], buffer)
  | left + 1, buffer, cursor => do
    let first ← buffer[cursor]?
    if first = 0 then return ([], buffer)
    let ending ← advance isWord buffer cursor
    let last ← buffer[ending]?
    if last = 0 then return ([cursor], buffer)
    let cut := buffer.setIfInBounds ending 0
    let next ← advance isBlank cut (ending + 1)
    let (argv, parsed) ← words left cut next
    return (cursor :: argv, parsed)

/-- `terminal_parse_command`: the places of the words in the line buffer. -/
def terminalParseCommand (command : Memory) (maxArgs : Nat) : Routine σ (List Nat) := do
  let machine ← get
  let line ← orOverrun (copy machine.terminal.line command)
  let start ← orOverrun (advance isBlank line 0)
  let (argv, parsed) ← orOverrun (words maxArgs line start)
  modifyTerminal ({ · with line := parsed })
  return argv

/-- The string at a place of the line buffer, with all that follows it there. -/
def wordAt (terminal : TerminalStorage) (place : Nat) : Memory :=
  terminal.line.toList.drop place

/-- The units that can be read from an entry of `argv`. -/
class Word (α : Type) where
  memory : TerminalStorage → α → Memory

/-- The entries of the source are places in the line buffer. -/
instance : Word Nat := ⟨wordAt⟩

/-- `argv[index]`, which must have been set. The text behind it is read from the memory of the
words. -/
def argument {α : Type} [Word α] (argv : List α) (index : Nat) : Routine σ Memory := do
  let entry ← orOverrun argv[index]?
  let machine ← get
  return Word.memory machine.terminal entry

/-! ## Substrings and segments -/

/-- Whether a string starts with another one. Neither is read behind its terminator. -/
def startsWith : Memory → Memory → Option Bool
  | left :: text, right :: needle =>
    if left ≠ 0 ∧ right ≠ 0 ∧ left = right then startsWith text needle else some (right = 0)
  | _, _ => none

/-- The loop of `terminal_contains` over the places of a text. -/
def containsFrom (needle : Memory) : Memory → Option Bool
  | [] => none
  | unit :: rest =>
    if unit = 0 then some false
    else do
      if ← startsWith (unit :: rest) needle then return true
      containsFrom needle rest

/-- `terminal_contains`. Every string contains the empty one. -/
def terminalContains (text needle : Memory) : Option Bool := do
  let first ← needle.head?
  if first = 0 then return true
  containsFrom needle text

/-- Two strings are compared within their terminators, so comparing overruns neither. -/
theorem startsWith_ends {text needle : Memory} (ends : (0 : CHAR16) ∈ text)
    (needleEnds : (0 : CHAR16) ∈ needle) : startsWith text needle ≠ none := by
  induction text generalizing needle with
  | nil => exact absurd ends List.not_mem_nil
  | cons left text ih =>
    cases needle with
    | nil => exact absurd needleEnds List.not_mem_nil
    | cons right needle =>
      rw [startsWith]
      by_cases same : left ≠ 0 ∧ right ≠ 0 ∧ left = right
      · rw [if_pos same]
        exact ih ((List.mem_cons.mp ends).resolve_left (Ne.symm same.1))
          ((List.mem_cons.mp needleEnds).resolve_left (Ne.symm same.2.1))
      · rw [if_neg same]
        exact Option.some_ne_none _

/-- Searching overruns nothing if both strings end. -/
theorem terminalContains_ends {text needle : Memory} (ends : (0 : CHAR16) ∈ text)
    (needleEnds : (0 : CHAR16) ∈ needle) : terminalContains text needle ≠ none := by
  have from_ends : containsFrom needle text ≠ none := by
    induction text with
    | nil => exact absurd ends List.not_mem_nil
    | cons unit rest ih =>
      rw [containsFrom]
      by_cases zero : unit = 0
      · rw [if_pos zero]
        exact Option.some_ne_none false
      · rw [if_neg zero]
        obtain ⟨isPrefix, found⟩ := Option.ne_none_iff_exists'.mp (startsWith_ends ends needleEnds)
        rw [found, Option.bind_eq_bind, Option.bind_some]
        cases isPrefix with
        | true => exact Option.some_ne_none true
        | false => exact ih ((List.mem_cons.mp ends).resolve_left (Ne.symm zero))
  cases needle with
  | nil => exact absurd needleEnds List.not_mem_nil
  | cons first needle =>
    rw [terminalContains, List.head?_cons, Option.bind_eq_bind, Option.bind_some]
    by_cases zero : first = 0
    · rw [if_pos zero]
      exact Option.some_ne_none true
    · rw [if_neg zero]
      exact from_ends

/-- A comparison reads both strings up to their terminators only. -/
theorem startsWith_reads (needle : Memory) : ReadsString fun text => startsWith text needle := by
  intro text rest free
  induction text generalizing needle with
  | nil => cases needle <;> simp [startsWith]
  | cons unit tail ih =>
    have tailFree : (0 : CHAR16) ∉ tail := fun member => free (List.mem_cons_of_mem unit member)
    cases needle with
    | nil => rfl
    | cons right needle =>
      simp only [List.cons_append, startsWith]
      split
      · exact ih needle tailFree
      · rfl

/-- A comparison reads the pattern up to its terminator only. -/
theorem startsWith_readsNeedle (text : Memory) : ReadsString (startsWith text) := by
  intro needle rest free
  induction needle generalizing text with
  | nil => cases text <;> simp [startsWith]
  | cons unit tail ih =>
    have tailFree : (0 : CHAR16) ∉ tail := fun member => free (List.mem_cons_of_mem unit member)
    cases text with
    | nil => rfl
    | cons left text =>
      simp only [List.cons_append, startsWith]
      split
      · exact ih text tailFree
      · simp

/-- A search reads the text up to its terminator only. -/
theorem terminalContains_reads (needle : Memory) :
    ReadsString fun text => terminalContains text needle := by
  intro text rest free
  have sameFrom : containsFrom needle (text ++ 0 :: rest) = containsFrom needle (text ++ [0]) := by
    induction text with
    | nil => simp [containsFrom]
    | cons unit tail ih =>
      have tailFree : (0 : CHAR16) ∉ tail := fun member => free (List.mem_cons_of_mem unit member)
      have same := startsWith_reads needle (unit :: tail) rest free
      simp only [List.cons_append] at same
      simp only [List.cons_append, containsFrom, same, ih tailFree]
  simp only [terminalContains, sameFrom]

/-- A search reads the pattern up to its terminator only. -/
theorem terminalContains_readsNeedle (text : Memory) : ReadsString (terminalContains text) := by
  intro needle rest free
  have sameFrom : containsFrom (needle ++ 0 :: rest) = containsFrom (needle ++ [0]) := by
    funext text
    induction text with
    | nil => rfl
    | cons unit tail ih =>
      simp only [containsFrom, startsWith_readsNeedle (unit :: tail) needle rest free, ih]
  have sameHead : (needle ++ 0 :: rest).head? = (needle ++ [0]).head? := by
    cases needle <;> rfl
  simp only [terminalContains, sameFrom, sameHead]

/-- A segment without the blanks at both ends. Those between its words stay. -/
def trimmed (segment : Text) : Text :=
  ((segment.dropWhile isBlank).reverse.dropWhile isBlank).reverse

/-- `terminal_copy_segment` into a fresh buffer, of the units between two
pointers. -/
def terminalCopySegment (segment : Text) : Memory :=
  (trimmed segment).take (terminalMaxLine - 1) ++ [0]

/-- A copied segment ends. -/
theorem terminalCopySegment_ends (segment : Text) : (0 : CHAR16) ∈ terminalCopySegment segment :=
  List.mem_append_right _ List.mem_cons_self

/-- Trimming and cutting make a segment no longer. -/
theorem terminalCopySegment_scan (segment line : Text)
    (found : scan (terminalCopySegment segment) = some line) : line.length ≤ segment.length := by
  obtain ⟨_, rest, split⟩ := scan_split _ _ found
  have lengths := congrArg List.length split
  have left := (List.dropWhile_suffix isBlank (l := segment)).length_le
  have right := (List.dropWhile_suffix isBlank (l := (segment.dropWhile isBlank).reverse)).length_le
  simp only [terminalCopySegment, trimmed, List.length_append, List.length_take,
    List.length_reverse, List.length_cons, List.length_nil] at lengths left right
  omega

/-! ## The prompt and the drive -/

/-- `terminal_set_drive`. A letter that is no drive changes nothing here, but the caller has
stored it already. -/
def terminalSetDrive (drive : CHAR16) (terminal : TerminalStorage) : TerminalStorage :=
  if drive = 0x42 ∨ drive = 0x43 then
    { terminal with
      currentDrive := drive
      currentPath := drivePath drive terminal.currentPath }
  else terminal

/-- `terminal_set_mode`, which also switches the echo on. -/
def terminalSetMode (mode : TerminalMode) (terminal : TerminalStorage) : TerminalStorage :=
  { terminal with mode := mode, echoEnabled := true }

/-- `terminal_current_prompt`, from the drive and the mode. The path is not a part of it. -/
def terminalCurrentPrompt (terminal : TerminalStorage) : Memory :=
  let mode := match terminal.mode with
    | .bash => text "bash"
    | .batch => text "batch"
  terminal.currentDrive :: text ":/ " ++ mode ++ constant "> "

/-- The prompt ends. -/
theorem terminalCurrentPrompt_ends (terminal : TerminalStorage) :
    (0 : CHAR16) ∈ terminalCurrentPrompt terminal := List.mem_append_right _ (constant_ends "> ")

end ExistentOS.Terminal
