import ExistentOS.Terminal.Dispatch
import ExistentOS.Terminal.LineBuffer
import ExistentOS.Terminal.Screen

/-!
# Lines with one command

What a line without ampersands and bars does, by the name of its command: the row of the table
that it runs, applied to its words. The rows of the commands that print or store their words are
taken further, to the words themselves.
-/

namespace ExistentOS.Terminal

open Programs Terminated Runs Accounts

variable {σ : Type} {fw : Firmware σ}

/-- The line is a single command with these words. Neither ampersands nor bars are in it, so it
is run as a whole. -/
structure Single (line : Text) (argv : List Text) : Prop where
  free : (0 : CHAR16) ∉ line
  alone : ampersand ∉ line
  unpiped : bar ∉ line
  words : tokens terminalMaxArgs line = argv

/-- A single command with all its words, of which there may be more than the interpreter keeps. -/
structure Typed (line : Text) (argv : List Text) : Prop where
  short : line.length < terminalMaxLine
  free : (0 : CHAR16) ∉ line
  alone : ampersand ∉ line
  unpiped : bar ∉ line
  split : runs isBlank line = argv

/-- Of all words of a command, the first eight are its arguments. -/
theorem Typed.single {line : Text} {argv : List Text} (typed : Typed line argv) :
    Single line (argv.take terminalMaxArgs) := by
  have whole : line.take (terminalMaxLine - 1) = line :=
    List.take_of_length_le (Nat.le_sub_one_of_lt typed.short)
  exact ⟨typed.free, typed.alone, typed.unpiped, by rw [tokens, whole, typed.split]⟩

/-- A name stands in one row of the table only. -/
def Names (names : List String) (name : String) : Prop :=
  name ∈ names ∧ ∀ row ∈ commandNames, ∀ other ∈ row, text name = text other →
    row = names ∧ other = name

instance (names : List String) (name : String) : Decidable (Names names name) :=
  inferInstanceAs (Decidable (_ ∧ _))

/-- A single command picks a row of the table by its first word. -/
theorem interpret_single (fw : Firmware σ) (fuel : Nat) {line word : Text} {rest : List Text}
    (single : Single line (word :: rest)) :
    ∃ args, terminalCommandArgs (line ++ [0]) = some args ∧
      interpret fw parseFresh (fuel + 1) (line ++ [0]) = dispatch fw (word :: rest) (word ++ [0])
        (commands fw (interpret fw parseFresh fuel) fuel (word :: rest) args) := by
  obtain ⟨free, alone, unpiped, words⟩ := single
  obtain ⟨args, found, unfolded⟩ := interpret_alone fw fuel (scan_append line [] free) alone
  have quiet : terminalTryPipeline fw parseFresh line = pure false := if_neg unpiped
  refine ⟨args, found, ?_⟩
  rw [unfolded, quiet, pure_bind, if_neg Bool.false_ne_true, words, argument_set rfl, pure_bind,
    List.isEmpty_cons, if_neg Bool.false_ne_true]

/-- A line without words does nothing, and answers that the shell goes on. -/
theorem interpret_none (fw : Firmware σ) (fuel : Nat) {line : Text} (single : Single line []) :
    interpret fw parseFresh (fuel + 1) (line ++ [0]) = pure false := by
  obtain ⟨free, alone, unpiped, words⟩ := single
  obtain ⟨args, _, unfolded⟩ := interpret_alone fw fuel (scan_append line [] free) alone
  have quiet : terminalTryPipeline fw parseFresh line = pure false := if_neg unpiped
  rw [unfolded, quiet, pure_bind, if_neg Bool.false_ne_true, words]
  rfl

/-- A single command runs the row of its name. -/
theorem interpret_row (fuel : Nat) {line : Text} {name : String} {rest : List Text}
    (single : Single line (text name :: rest)) {names : List String} (isName : Names names name)
    {row : Memory → Routine σ Bool}
    (inTable : ∀ args, (names, row args) ∈
      commands fw (interpret fw parseFresh fuel) fuel (text name :: rest) args) :
    ∃ args, terminalCommandArgs (line ++ [0]) = some args ∧
      interpret fw parseFresh (fuel + 1) (line ++ [0]) =
        (do record name (text name :: rest); row args) := by
  obtain ⟨args, found, unfolded⟩ := interpret_single fw fuel single
  refine ⟨args, found, ?_⟩
  have member : text name ∈ tokens terminalMaxArgs line := single.words ▸ List.mem_cons_self
  have named : ∀ found ∈ commands fw (interpret fw parseFresh fuel) fuel (text name :: rest) args,
      found.1 ∈ commandNames := fun found inTable =>
    commands_names fw (interpret fw parseFresh fuel) fuel (text name :: rest) args ▸
      List.mem_map_of_mem inTable
  rcases dispatch_picks fw (text name :: rest) (tokens_solid single.free member) _
      (fun found inTable => commandNames_solid found.1 (named found inTable)) with
    ⟨_, none⟩ | ⟨found, isRow, other, inRow, same, run⟩
  · exact absurd rfl (none _ (inTable args) name isName.1)
  · obtain ⟨sameNames, rfl⟩ := isName.2 found.1 (named found isRow) other inRow same
    have sameRow := commands_unique fw _ fuel _ args isRow (inTable args) sameNames
    rw [unfolded, run, sameRow]

/-- The machine behind the record of a command. Nothing but the trace has changed. -/
def commanded (machine : Machine σ) (name : String) (argv : List Text) : Machine σ :=
  { machine with trace := machine.trace ++
      [.command (text name) (wordsOf machine.terminal argv)] }

/-- Recording a command changes the trace alone. -/
theorem run_record (name : String) (argv : List Text) (machine : Machine σ) :
    (record name argv).run machine = .ok ((), commanded machine name argv) := rfl

/-- A single command does what its row does, apart from the line buffer. -/
theorem run_row {fuel : Nat} {line : Text} {name : String} {argv : List Text}
    {row : Routine σ Bool}
    (unfolded : interpret fw parseFresh (fuel + 1) (line ++ [0]) = (do record name argv; row))
    {machine after : Machine σ} {result : Bool}
    (ran : row.run (commanded machine name argv) = .ok (result, after)) :
    ∃ buffer, (terminalExecuteCommand fw (fuel + 1) (line ++ [0])).run machine =
      .ok (result, after.withLine buffer) := by
  apply run_alike (coupled_interpret (fuel + 1) machine.terminal.line (line ++ [0]))
  rw [unfolded, run_bind_of_ok (run_record name argv machine)]
  exact ran

/-- What a single command does is what its row does, apart from the line buffer. -/
theorem row_run {fuel : Nat} {line : Text} {name : String} {argv : List Text}
    {row : Routine σ Bool}
    (unfolded : interpret fw parseFresh (fuel + 1) (line ++ [0]) = (do record name argv; row))
    {machine after : Machine σ} {result : Bool}
    (ran : (terminalExecuteCommand fw (fuel + 1) (line ++ [0])).run machine = .ok (result, after)) :
    ∃ buffer reached, row.run (commanded machine name argv) = .ok (result, reached) ∧
      after = reached.withLine buffer := by
  obtain ⟨buffer, reached, same, rfl⟩ :=
    alike_run (coupled_interpret (fuel + 1) machine.terminal.line (line ++ [0])) ran
  rw [unfolded, run_bind_of_ok (run_record name argv machine)] at same
  exact ⟨buffer, reached, same, rfl⟩

/-! ## Answers -/

/-- A reply shows its line. -/
theorem shows_reply {message : String} (free : (0 : CHAR16) ∉ text message) :
    Shows fw [text message, [carriageReturn, lineFeed]] false (reply fw message) := by
  intro machine
  rw [reply, run_bind_of_ok (shows_say free machine)]
  rfl

/-- A failed command is answered with its usage. -/
theorem shows_orUsage {usage : String} (free : (0 : CHAR16) ∉ text usage) (done : Bool) :
    Shows fw (if done then [] else [text usage, [carriageReturn, lineFeed]]) false
      (orUsage fw done usage) := by
  cases done with
  | true => exact shows_pure false
  | false => exact shows_reply free

/-! ## The rows -/

section Rows

variable (fw) (fuel : Nat) {line path : Text} {rest : List Text}

/-- A single `echo` writes its words. -/
theorem interpret_echo (single : Single line (text "echo" :: rest)) :
    interpret fw parseFresh (fuel + 1) (line ++ [0]) = (do
      record "echo" (text "echo" :: rest)
      terminalWriteArgList fw false rest
      reply fw "") := by
  have isName : Names ["echo"] "echo" := by decide
  have inTable : ∀ args, (["echo"], do terminalWriteArgList fw false rest; reply fw "") ∈
      commands fw (interpret fw parseFresh fuel) fuel (text "echo" :: rest) args :=
    fun _ => List.mem_of_getElem? (i := 4) rfl
  obtain ⟨_, _, unfolded⟩ := interpret_row fuel single isName inTable
  exact unfolded

/-- A single `grep` searches its words. -/
theorem interpret_grep (single : Single line (text "grep" :: rest)) :
    interpret fw parseFresh (fuel + 1) (line ++ [0]) = (do
      record "grep" (text "grep" :: rest)
      grepWords fw (text "grep" :: rest)) := by
  have isName : Names ["grep"] "grep" := by decide
  have inTable : ∀ args, (["grep"], grepWords fw (text "grep" :: rest)) ∈
      commands fw (interpret fw parseFresh fuel) fuel (text "grep" :: rest) args :=
    fun _ => List.mem_of_getElem? (i := 36) rfl
  obtain ⟨_, _, unfolded⟩ := interpret_row fuel single isName inTable
  exact unfolded

/-- A single `system` writes the arguments as they were typed. It is the one command that takes
them from the line and not from the words. -/
theorem interpret_system (single : Single line (text "system" :: rest)) :
    ∃ args, terminalCommandArgs (line ++ [0]) = some args ∧
      interpret fw parseFresh (fuel + 1) (line ++ [0]) = (do
        record "system" (text "system" :: rest)
        terminalWriteLine fw args
        return false) := by
  have isName : Names ["system"] "system" := by decide
  have inTable : ∀ args, (["system"], do terminalWriteLine fw args; return false) ∈
      commands fw (interpret fw parseFresh fuel) fuel (text "system" :: rest) args :=
    fun _ => List.mem_of_getElem? (i := 16) rfl
  exact interpret_row fuel single isName inTable

/-- The names of the commands that store words, and whether they append. -/
def storeNames : List (String × Bool) := [("write", false), ("append", true)]

/-- Whether a command appends is up to its name. -/
theorem isCall_append {name : String} {append : Bool} (named : (name, append) ∈ storeNames)
    (words : List Text) :
    isCall true (text name :: words) "append" = (pure append : Routine σ Bool) := by
  have appends : terminalMatchCommand (text name ++ [0]) (constant "append") = some append := by
    simp only [storeNames, List.mem_cons, Prod.mk.injEq, List.not_mem_nil, or_false] at named
    obtain ⟨rfl, rfl⟩ | ⟨rfl, rfl⟩ := named <;> decide
  rw [isCall, if_pos rfl, argument_set rfl, pure_bind, appends]
  rfl

/-- A single `write` or `append` stores its words. -/
theorem interpret_storeRow {name : String} {append : Bool} (named : (name, append) ∈ storeNames)
    (single : Single line (text name :: rest)) :
    interpret fw parseFresh (fuel + 1) (line ++ [0]) = (do
      record name (text name :: rest)
      storeWordsOf fw (text name :: rest)) := by
  have isName : Names ["write", "append"] name := by
    simp only [storeNames, List.mem_cons, Prod.mk.injEq, List.not_mem_nil, or_false] at named
    obtain ⟨rfl, _⟩ | ⟨rfl, _⟩ := named <;> decide
  have inTable : ∀ args, (["write", "append"], storeWordsOf fw (text name :: rest)) ∈
      commands fw (interpret fw parseFresh fuel) fuel (text name :: rest) args :=
    fun _ => List.mem_of_getElem? (i := 11) rfl
  obtain ⟨_, _, unfolded⟩ := interpret_row fuel single isName inTable
  exact unfolded

/-- `write` and `append` of some words to a path. -/
theorem interpret_store {name : String} {append : Bool} (named : (name, append) ∈ storeNames)
    {word : Text} (single : Single line (text name :: path :: word :: rest)) :
    interpret fw parseFresh (fuel + 1) (line ++ [0]) = (do
      record name (text name :: path :: word :: rest)
      let done ← terminalWriteFile fw (path ++ [0]) ((word :: rest).map (· ++ [0])) append
      orUsage fw done "usage: write|append <file> <text") := by
  have long : (text name :: path :: word :: rest).length ≥ 3 := by
    simp only [List.length_cons]
    omega
  rw [interpret_storeRow fw fuel named single, storeWordsOf, isCall_append named, pure_bind,
    if_pos long]
  rfl

/-- `write` and `append` of too little print how they are used. -/
theorem interpret_storeNothing {name : String} {append : Bool} (named : (name, append) ∈ storeNames)
    (single : Single line (text name :: rest)) (few : rest.length < 2) :
    interpret fw parseFresh (fuel + 1) (line ++ [0]) = (do
      record name (text name :: rest)
      reply fw "usage: write|append <file> <text") := by
  have short : ¬ (text name :: rest).length ≥ 3 := by
    rw [List.length_cons]
    omega
  rw [interpret_storeRow fw fuel named single, storeWordsOf, isCall_append named, pure_bind,
    if_neg short]

/-- `cat` of a path shows the file, or how the command is used. -/
theorem interpret_cat (single : Single line [text "cat", path]) :
    interpret fw parseFresh (fuel + 1) (line ++ [0]) = (do
      record "cat" [text "cat", path]
      let done ← terminalCatFile fw fuel (path ++ [0])
      orUsage fw done "usage: cat <file>") := by
  have isName : Names ["cat"] "cat" := by decide
  obtain ⟨_, _, unfolded⟩ := interpret_row fuel single isName
    (commands_cat fw (interpret fw parseFresh fuel) fuel [text "cat", path])
  exact unfolded

end Rows

end ExistentOS.Terminal
