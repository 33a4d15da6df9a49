import ExistentOS.Terminal.Sequences

/-!
# Which command a line runs

A line without ampersands is a pipeline, or it runs the command named by its first word, or
it is empty. The rows of the table are told apart by their names: what the commands answer,
and that all but `source` run no further command.
-/

namespace ExistentOS.Terminal

open Programs Terminated Runs Accounts

variable {σ α : Type} {fw : Firmware σ}

/-! ## The name of a command -/

/-- A word matches a name exactly if it is the name. -/
theorem terminalMatchCommand_word (word name : Text) (solid : ∀ unit ∈ word, unit ≠ 0 ∧ unit ≠ space)
    (free : (0 : CHAR16) ∉ name) :
    terminalMatchCommand (word ++ [0]) (name ++ [0]) = some (decide (word = name)) := by
  induction word generalizing name with
  | nil =>
    cases name with
    | nil => rfl
    | cons right name =>
      have nonzero : right ≠ 0 := fun zero => free (zero ▸ List.mem_cons_self)
      simp [terminalMatchCommand, nonzero]
  | cons left word ih =>
    obtain ⟨nonzero, noSpace⟩ := solid left List.mem_cons_self
    cases name with
    | nil => simp [terminalMatchCommand, nonzero, noSpace]
    | cons right name =>
      have rightNonzero : right ≠ 0 := fun zero => free (zero ▸ List.mem_cons_self)
      have tail := ih name (fun unit member => solid unit (List.mem_cons_of_mem left member))
        (fun member => free (List.mem_cons_of_mem right member))
      rw [List.cons_append, List.cons_append, terminalMatchCommand]
      by_cases same : left = right
      · rw [if_pos ⟨nonzero, rightNonzero, same⟩, tail, same]
        simp
      · rw [if_neg (fun all => same all.2.2)]
        simp [rightNonzero, same]

/-- The name of the command that a line without ampersands runs: its first word, unless the line is
a pipeline. -/
def commandOf (line : Text) : Option Text :=
  if bar ∈ line then none else (tokens terminalMaxArgs line).head?

/-- The words of a line contain neither blanks nor terminators. -/
theorem tokens_solid {maxArgs : Nat} {line word : Text} (free : (0 : CHAR16) ∉ line)
    (member : word ∈ tokens maxArgs line) : ∀ unit ∈ word, unit ≠ 0 ∧ unit ≠ space := by
  intro unit inside
  obtain ⟨inLine, solid⟩ := runs_units isBlank (List.mem_of_mem_take member) unit inside
  refine ⟨?_, ?_⟩
  · rintro rfl
    exact free (List.mem_of_mem_take inLine)
  · rintro rfl
    cases solid

/-- Trimming a text keeps its words, as only blanks go. -/
theorem runs_trimmed (line : Text) : runs isBlank (trimmed line) = runs isBlank line := by
  obtain ⟨before, behind, same, front, back⟩ := exists_trimmed line
  conv_rhs => rw [same]
  rw [runs_behind isBlank _ back, runs_before isBlank front]

/-- Trimming a line that fits does not change its command. -/
theorem commandOf_trimmed {line : Text} (fits : line.length ≤ terminalMaxLine - 1) :
    commandOf (trimmed line) = commandOf line := by
  obtain ⟨before, behind, same, front, back⟩ := exists_trimmed line
  have whole : line.take (terminalMaxLine - 1) = line := List.take_of_length_le fits
  have wholeTrimmed : (trimmed line).take (terminalMaxLine - 1) = trimmed line :=
    List.take_of_length_le (Nat.le_trans (trimmed_length line) fits)
  have words : tokens terminalMaxArgs (trimmed line) = tokens terminalMaxArgs line := by
    rw [tokens, tokens, whole, wholeTrimmed, runs_trimmed]
  have bars : bar ∈ trimmed line ↔ bar ∈ line := by
    conv_rhs => rw [same]
    rw [List.mem_append, List.mem_append]
    refine ⟨fun inside => Or.inl (Or.inr inside), ?_⟩
    rintro ((early | inside) | late)
    · cases front bar early
    · exact inside
    · cases back bar late
  rw [commandOf, commandOf, words]
  simp only [bars]

/-! ## Picking a row -/

/-- The first of some names that a word matches is the one that it is. -/
theorem matchedName_word {word : Text} (solid : ∀ unit ∈ word, unit ≠ 0 ∧ unit ≠ space)
    (names : List String) (free : ∀ name ∈ names, (0 : CHAR16) ∉ text name) :
    matchedName (word ++ [0]) names = some (names.find? fun name => decide (word = text name)) := by
  induction names with
  | nil => rfl
  | cons name rest ih =>
    have tail := ih fun later member => free later (List.mem_cons_of_mem name member)
    have first := terminalMatchCommand_word word (text name) solid (free name List.mem_cons_self)
    rw [matchedName, constant, first, Option.bind_eq_bind, Option.bind_some, List.find?_cons]
    by_cases same : word = text name
    · simp [same]
    · simp [same, tail]

/-- A word picks a row with its name, or there is none. -/
theorem dispatch_picks (fw : Firmware σ) (argv : List α) [Word α] {word : Text}
    (solid : ∀ unit ∈ word, unit ≠ 0 ∧ unit ≠ space) (table : List (List String × Routine σ Bool))
    (free : ∀ row ∈ table, ∀ name ∈ row.1, (0 : CHAR16) ∉ text name) :
    (dispatch fw argv (word ++ [0]) table = reply fw "unknown command" ∧
      ∀ row ∈ table, ∀ name ∈ row.1, word ≠ text name) ∨
    ∃ row ∈ table, ∃ name ∈ row.1, word = text name ∧
      dispatch fw argv (word ++ [0]) table = (do record name argv; row.2) := by
  induction table with
  | nil => exact Or.inl ⟨rfl, by simp⟩
  | cons row rest ih =>
    have tail := ih fun later member => free later (List.mem_cons_of_mem row member)
    have first := matchedName_word solid row.1 (free row List.mem_cons_self)
    cases found : row.1.find? fun name => decide (word = text name) with
    | some name =>
      have step : dispatch fw argv (word ++ [0]) (row :: rest) = (do record name argv; row.2) := by
        rw [dispatch, first, found]
        rfl
      refine Or.inr ⟨row, List.mem_cons_self, name, List.mem_of_find?_eq_some found, ?_, step⟩
      simpa using List.find?_some found
    | none =>
      have step : dispatch fw argv (word ++ [0]) (row :: rest) =
          dispatch fw argv (word ++ [0]) rest := by
        rw [dispatch, first, found]
        rfl
      have others : ∀ name ∈ row.1, word ≠ text name := by
        simpa using List.find?_eq_none.mp found
      rcases tail with ⟨unknown, none⟩ | ⟨later, member, name, named, same, run⟩
      · refine Or.inl ⟨step.trans unknown, ?_⟩
        rw [List.forall_mem_cons]
        exact ⟨others, none⟩
      · exact Or.inr ⟨later, List.mem_cons_of_mem row member, name, named, same, step.trans run⟩

/-! ## Answers -/

/-- Whenever the routine returns, it returns this. For a command this is whether the shell is to
end. -/
def Answers (expected : Bool) (routine : Routine σ Bool) : Prop :=
  ∀ result, Returns routine result → result = expected

/-- A value answers itself. -/
theorem answers_pure (value : Bool) : Answers value (pure value : Routine σ Bool) := by
  rintro result ⟨state, after, ran⟩
  cases ran
  rfl

/-- What a sequence answers is up to its last part. -/
theorem answers_sequence {expected : Bool} {first : Routine σ α} {next : α → Routine σ Bool}
    (rest : ∀ value, Returns first value → Answers expected (next value)) :
    Answers expected (first >>= next) := by
  rintro result ⟨state, after, ran⟩
  obtain ⟨value, middle, before, behind⟩ := (run_bind_ok first next state (result, after)).mp ran
  exact rest value ⟨state, middle, before⟩ result ⟨middle, after, behind⟩

/-- What a sequence answers is up to its last part, whatever the first one returned. -/
theorem answers_bind {expected : Bool} {first : Routine σ α} {next : α → Routine σ Bool}
    (rest : ∀ value, Answers expected (next value)) : Answers expected (first >>= next) :=
  answers_sequence fun value _ => rest value

/-- Both branches answer the same. -/
theorem answers_ite {expected : Bool} {condition : Prop} [Decidable condition]
    {left right : Routine σ Bool} (whenTrue : condition → Answers expected left)
    (whenFalse : ¬ condition → Answers expected right) :
    Answers expected (if condition then left else right) := by
  by_cases chosen : condition
  · rw [if_pos chosen]
    exact whenTrue chosen
  · rw [if_neg chosen]
    exact whenFalse chosen

/-- A reply answers that the shell goes on. -/
theorem answers_reply (message : String) : Answers false (reply fw message) :=
  answers_bind fun _ => answers_pure false

/-- A command that may print its usage answers that the shell goes on. -/
theorem answers_orUsage (done : Bool) (usage : String) : Answers false (orUsage fw done usage) :=
  answers_ite (fun _ => answers_pure false) (fun _ => answers_reply usage)

/-- A command on a file answers that the shell goes on, whatever became of the file. -/
theorem answers_onFile [Word α] (argv : List α) (command : Memory → Routine σ Bool)
    (usage : String) : Answers false (onFile fw argv command usage) :=
  answers_ite (fun _ => answers_bind fun _ => answers_bind fun done => answers_orUsage done usage)
    (fun _ => answers_reply usage)

/-! ## The rows of the table -/

/-- What the commands of the table do apart from quiet steps: all but `source` run no command. -/
inductive SilentEffect (fw : Firmware σ) : (α : Type) → Routine σ α → Prop where
  | setDrive (drive : CHAR16) : SilentEffect fw Unit
    (modifyTerminal fun terminal => terminalSetDrive drive { terminal with currentDrive := drive })
  | storage {α : Type} {routine : Routine σ α} (named : StorageStep fw α routine) :
    SilentEffect fw α routine

/-- The names of the row that ends the shell. -/
def exitNames : List String := ["exit", "shutdown"]

/-- The name of the row that runs a script. -/
def sourceNames : List String := ["source"]

/-- The names of the rows whose loops are given fuel. -/
def waitingNames : List (List String) := [["nano"], ["cat"], ["passwd"], ["login"]]

/-- What there is to know of a row of the table: for which reasons it stops, and what it answers. -/
structure RowFacts (fw : Firmware σ) (reasons : Stop → Prop) (row : List String × Routine σ Bool) :
    Prop where
  silent : row.1 ≠ sourceNames → (row.1 ∈ waitingNames → reasons .outOfFuel) →
    Composed fw reasons (SilentEffect fw) row.2
  answers : Answers (decide (row.1 = exitNames)) row.2

section Rows

variable {reasons : Stop → Prop}

/-- A row that runs no command and does not end the shell. -/
theorem facts_row {names : List String} {run : Routine σ Bool}
    (composed : Composed fw reasons (SilentEffect fw) run) (goesOn : Answers false run)
    (stays : names ≠ exitNames) : RowFacts fw reasons (names, run) :=
  ⟨fun _ _ => composed, decide_eq_false stays ▸ goesOn⟩

/-- A row with a loop that is given fuel. -/
theorem facts_waiting {names : List String} {run : Routine σ Bool}
    (composed : reasons .outOfFuel → Composed fw reasons (SilentEffect fw) run)
    (goesOn : Answers false run) (waits : names ∈ waitingNames) (stays : names ≠ exitNames) :
    RowFacts fw reasons (names, run) :=
  ⟨fun _ exhausted => composed (exhausted waits), decide_eq_false stays ▸ goesOn⟩

/-- The facts are collected row by row. -/
theorem facts_cons {row : List String × Routine σ Bool} {table : List (List String × Routine σ Bool)}
    (first : RowFacts fw reasons row) (rest : ∀ row ∈ table, RowFacts fw reasons row) :
    ∀ found ∈ row :: table, RowFacts fw reasons found := List.forall_mem_cons.mpr ⟨first, rest⟩

/-- A row that only replies. -/
theorem facts_reply (names : List String) (message : String) (stays : names ≠ exitNames) :
    RowFacts fw reasons (names, reply fw message) :=
  facts_row (composed_reply message) (answers_reply message) stays

/-- A row whose work is followed by the answer that the shell goes on. -/
theorem facts_then {names : List String} {first : Routine σ α}
    (composed : Composed fw reasons (SilentEffect fw) first) (stays : names ≠ exitNames) :
    RowFacts fw reasons (names, do let _ ← first; return false) :=
  facts_row (Composed.bind composed fun _ => Composed.pure false)
    (answers_bind fun _ => answers_pure false) stays

/-- A row that waits for input before it answers that the shell goes on. -/
theorem facts_input {names : List String} {first : Routine σ α}
    (composed : reasons .outOfFuel → Composed fw reasons (SilentEffect fw) first)
    (waits : names ∈ waitingNames) (stays : names ≠ exitNames) :
    RowFacts fw reasons (names, do let _ ← first; return false) :=
  facts_waiting (fun exhausted => Composed.bind (composed exhausted) fun _ => Composed.pure false)
    (answers_bind fun _ => answers_pure false) waits stays

/-- A row that runs a command on a file. The command is given a path that ends. -/
theorem facts_onFile {names : List String} {argv : List Text} {command : Memory → Routine σ Bool}
    (usage : String)
    (composed : ∀ path, (0 : CHAR16) ∈ path →
      Composed fw reasons (SilentEffect fw) (command path))
    (stays : names ≠ exitNames) : RowFacts fw reasons (names, onFile fw argv command usage) :=
  facts_row (composed_onFile argv usage composed)
    (answers_onFile argv command usage) stays

/-- The rows are those of the table, in its order. -/
theorem facts_commands (lenient : ∀ stop ≠ Stop.outOfFuel, reasons stop)
    (script : Memory → Routine σ Bool) (fuel : Nat) {argv : List Text} (nonempty : argv ≠ [])
    (args : Memory) : ∀ row ∈ commands fw script fuel argv args, RowFacts fw reasons row := by
  have storage : ∀ (α : Type) (routine : Routine σ α), StorageStep fw α routine →
      SilentEffect fw α routine := fun _ _ named => SilentEffect.storage named
  have files : ∀ (α : Type) (routine : Routine σ α), FileStep fw α routine →
      SilentEffect fw α routine := fun _ _ named => storage _ _ (StorageStep.file named)
  have replies : ∀ (names : List String) (message : String), names ≠ exitNames →
      RowFacts fw reasons (names, reply fw message) := facts_reply
  have overrun : reasons .overrun := lenient .overrun (by decide)
  have fault : reasons .fault := lenient .fault (by decide)
  have given : ∀ arguments, Handed reasons arguments := by
    intro arguments
    refine Or.inr (lenient (beyond arguments) ?_)
    unfold beyond
    split_ifs <;> decide
  unfold commands
  refine facts_cons (facts_row (composed_switchEcho argv) ?_ (by decide)) ?_
  · refine answers_bind fun off => answers_ite (fun _ => answers_bind fun _ => answers_pure false) ?_
    refine fun _ => answers_bind fun on => ?_
    exact answers_ite (fun _ => answers_bind fun _ => answers_pure false) (fun _ => answers_pure false)
  refine facts_cons (facts_row (Composed.pure false) (answers_pure false) (by decide)) ?_
  refine facts_cons (facts_row (composed_switchLanguage argv) ?_ (by decide)) ?_
  · refine answers_bind fun bash => answers_ite (fun _ => answers_bind fun _ => answers_reply _) ?_
    refine fun _ => answers_bind fun batch => ?_
    exact answers_ite (fun _ => answers_bind fun _ => answers_reply _) (fun _ => answers_reply _)
  refine facts_cons (replies _ _ (by decide)) ?_
  refine facts_cons (facts_row (Composed.bind (composed_terminalWriteArgList _ _)
    fun _ => composed_reply _) (answers_bind fun _ => answers_reply _) (by decide)) ?_
  refine facts_cons (facts_input (fun exhausted => composed_terminalRunNano exhausted fuel)
    (by decide) (by decide)) ?_
  iterate 2 refine facts_cons (replies _ _ (by decide)) ?_
  refine facts_cons (facts_waiting (fun exhausted => composed_onFile argv _ fun path ends =>
    composed_terminalCatFile (Or.inr overrun) exhausted fuel (Or.inl ends))
    (answers_onFile argv _ _) (by decide) (by decide)) ?_
  refine facts_cons (facts_onFile _ (fun _ ends => composed_terminalTouchFile (Or.inl ends))
    (by decide)) ?_
  refine facts_cons (facts_onFile _ (fun _ ends => composed_terminalRemoveFile files (Or.inl ends))
    (by decide)) ?_
  refine facts_cons (facts_row (composed_storeWordsOf files nonempty) ?_ (by decide)) ?_
  · refine answers_bind fun append => answers_ite (fun _ => ?_) (fun _ => answers_reply _)
    exact answers_bind fun path => answers_bind fun machine => answers_bind fun done =>
      answers_orUsage done _
  refine facts_cons ⟨fun other _ => absurd rfl other, answers_onFile argv _ _⟩ ?_
  iterate 3 refine facts_cons (replies _ _ (by decide)) ?_
  refine facts_cons (facts_then (composed_terminalWriteLine (Or.inr overrun)) (by decide)) ?_
  refine facts_cons (replies _ _ (by decide)) ?_
  refine facts_cons (facts_row (composed_listDrive SilentEffect.setDrive fault argv) ?_
    (by decide)) ?_
  · exact answers_bind fun _ => answers_bind fun _ => answers_bind fun _ => answers_pure false
  refine facts_cons (replies _ _ (by decide)) ?_
  refine facts_cons (facts_row (Composed.bind (composed_say _) fun _ =>
    Composed.bind (composed_say _) fun _ => composed_reply _)
    (answers_bind fun _ => answers_bind fun _ => answers_reply _) (by decide)) ?_
  refine facts_cons (replies _ _ (by decide)) ?_
  refine facts_cons ⟨fun _ _ => Composed.bind (composed_say _) fun _ => Composed.pure true,
    answers_bind fun _ => answers_pure true⟩ ?_
  iterate 5 refine facts_cons (replies _ _ (by decide)) ?_
  refine facts_cons (facts_row (composed_changeDirectory SilentEffect.setDrive fault argv) ?_
    (by decide)) ?_
  · refine answers_bind fun changed => answers_ite (fun _ => ?_) (fun _ => ?_)
    · exact answers_bind fun _ => answers_bind fun _ => answers_bind fun _ => answers_pure false
    · exact answers_bind fun _ => answers_bind fun _ => answers_pure false
  iterate 6 refine facts_cons (replies _ _ (by decide)) ?_
  refine facts_cons (facts_row (composed_showUser fault) ?_ (by decide)) ?_
  · exact answers_bind fun _ => answers_bind fun _ => answers_bind fun _ => answers_pure false
  refine facts_cons (facts_row (composed_grepWords argv) ?_ (by decide)) ?_
  · refine answers_ite (fun _ => answers_reply _) (fun _ => ?_)
    exact answers_bind fun _ => answers_bind fun _ => answers_bind fun _ => answers_pure false
  refine facts_cons (facts_row (composed_showUsers fault) ?_ (by decide)) ?_
  · exact answers_bind fun _ => answers_bind fun _ => answers_pure false
  refine facts_cons (facts_row (composed_addUser argv fun _ _ _ =>
    composed_accountsAdd storage (given _)) ?_ (by decide)) ?_
  · refine answers_ite (fun _ => answers_bind fun _ => answers_bind fun _ => answers_bind fun added => ?_)
      (fun _ => answers_reply _)
    exact answers_ite (fun _ => answers_reply _) (fun _ => answers_reply _)
  refine facts_cons (facts_input (fun exhausted => composed_changePassword exhausted fuel
    fun _ _ _ => composed_accountsChangePassword storage (given _)) (by decide) (by decide)) ?_
  refine facts_cons (facts_input (fun exhausted => composed_terminalLogin exhausted fuel
    fun _ _ _ => composed_accountsLogin storage (given _)) (by decide) (by decide)) ?_
  refine facts_cons (replies _ _ (by decide)) ?_
  refine facts_cons (facts_row (Composed.bind (composed_setMode .bash) fun _ => composed_reply _)
    (answers_bind fun _ => answers_reply _) (by decide)) ?_
  refine facts_cons (facts_row (Composed.bind (composed_setMode .batch) fun _ => composed_reply _)
    (answers_bind fun _ => answers_reply _) (by decide)) ?_
  exact fun row member => absurd member List.not_mem_nil

end Rows

/-- The names of the table, row by row. Several names in a row run the same. -/
def commandNames : List (List String) :=
  (commands (Firmware.inert : Firmware Unit) (fun _ => return false) 0 ([] : List Text) []).map
    Prod.fst

/-- The names of the table, row by row. -/
theorem commands_names (fw : Firmware σ) [Word α] (script : Memory → Routine σ Bool) (fuel : Nat)
    (argv : List α) (args : Memory) :
    (commands fw script fuel argv args).map Prod.fst = commandNames := rfl

/-- A row is told apart by its names. -/
theorem commands_unique (fw : Firmware σ) [Word α] (script : Memory → Routine σ Bool) (fuel : Nat)
    (argv : List α) (args : Memory) {row row' : List String × Routine σ Bool}
    (member : row ∈ commands fw script fuel argv args)
    (member' : row' ∈ commands fw script fuel argv args) (same : row.1 = row'.1) : row = row' := by
  have different : commandNames.Nodup := by decide
  rw [← commands_names fw script fuel argv args] at different
  exact List.inj_on_of_nodup_map different member member' same

/-- The row that runs a script is the one with this name. -/
theorem commands_source (fw : Firmware σ) [Word α] (script : Memory → Routine σ Bool) (fuel : Nat)
    (argv : List α) (args : Memory) : (sourceNames, onFile fw argv (terminalSourceFile fw script)
      "usage: source <script>") ∈ commands fw script fuel argv args :=
  List.mem_of_getElem? (i := 12) rfl

/-- The row that shows a file is the one with this name. -/
theorem commands_cat (fw : Firmware σ) [Word α] (script : Memory → Routine σ Bool) (fuel : Nat)
    (argv : List α) (args : Memory) : (["cat"], onFile fw argv (terminalCatFile fw fuel)
      "usage: cat <file>") ∈ commands fw script fuel argv args :=
  List.mem_of_getElem? (i := 8) rfl

/-- No name of the table contains a terminator. -/
theorem commandNames_solid : ∀ names ∈ commandNames, ∀ name ∈ names, (0 : CHAR16) ∉ text name := by
  decide

/-- The names that end the shell are in one row, and in no other. -/
theorem exitNames_only : ∀ names ∈ commandNames, ∀ name ∈ names,
    text name ∈ exitNames.map text ↔ names = exitNames := by
  decide

/-- The name that runs a script is in one row, and in no other. -/
theorem sourceNames_only : ∀ names ∈ commandNames, ∀ name ∈ names,
    text name ∈ sourceNames.map text ↔ names = sourceNames := by
  decide

/-! ## Lines without ampersands -/

/-- A line without ampersands is taken apart and tried as a pipeline. -/
theorem interpret_alone (fw : Firmware σ) (fuel : Nat) {command : Memory} {line : Text}
    (readable : scan command = some line) (alone : ampersand ∉ line) :
    ∃ args, terminalCommandArgs command = some args ∧ interpret fw parseFresh (fuel + 1) command = (do
      if ← terminalTryPipeline fw parseFresh line then return false
      else if (tokens terminalMaxArgs line).isEmpty then return false
      else
        let word ← argument (tokens terminalMaxArgs line) 0
        dispatch fw (tokens terminalMaxArgs line) word (commands fw (interpret fw parseFresh fuel)
          fuel (tokens terminalMaxArgs line) args)) := by
  have ends : (0 : CHAR16) ∈ command :=
    (scan_isSome command).mp (Option.isSome_iff_exists.mpr ⟨_, readable⟩)
  obtain ⟨args, found, _⟩ := terminalCommandArgs_ends ends
  refine ⟨args, found, ?_⟩
  rw [interpret, executeLine, parseFresh, found, readable]
  change (if ampersand ∈ line then _ else _) = _
  rw [if_neg alone]

/-- A word that is set is read without any effect. -/
theorem argument_set {argv : List Text} {word : Text} {rest : List Text} (set : argv = word :: rest) :
    (argument argv 0 : Routine σ Memory) = pure (word ++ [0]) := by
  subst set
  rfl

/-- A pipeline has been one, and then the shell goes on. -/
theorem answers_terminalTryPipeline (line : Text) :
    Answers (decide (bar ∈ line)) (terminalTryPipeline fw parseFresh line) := by
  by_cases piped : bar ∈ line
  · rw [decide_eq_true piped, terminalTryPipeline, if_pos piped]
    refine answers_bind fun left => answers_bind fun echo => answers_ite (fun _ => ?_) (fun _ => ?_)
    · refine answers_bind fun right => answers_bind fun grep =>
        answers_ite (fun _ => ?_) (fun _ => answers_bind fun _ => answers_pure true)
      refine answers_bind fun echoed => answers_bind fun needle => answers_bind fun found => ?_
      exact answers_ite (fun _ => answers_bind fun _ => answers_pure true)
        (fun _ => answers_pure true)
    · exact answers_bind fun _ => answers_pure true
  · rw [decide_eq_false piped, terminalTryPipeline, if_neg piped]
    exact answers_pure false

/-- A line without ampersands runs the command of its name, or it goes on quietly. -/
theorem interpret_command (fw : Firmware σ) (fuel : Nat) {command : Memory} {line : Text}
    (readable : scan command = some line) (alone : ampersand ∉ line) :
    (Composed fw (fun _ => True) Nothing (interpret fw parseFresh (fuel + 1) command) ∧
      Answers false (interpret fw parseFresh (fuel + 1) command) ∧
      ∀ names ∈ commandNames, ∀ name ∈ names, commandOf line ≠ some (text name)) ∨
    ∃ args, ∃ row ∈ commands fw (interpret fw parseFresh fuel) fuel (tokens terminalMaxArgs line) args,
      ∃ name ∈ row.1, commandOf line = some (text name) ∧ tokens terminalMaxArgs line ≠ [] ∧
        interpret fw parseFresh (fuel + 1) command =
          (do record name (tokens terminalMaxArgs line); row.2) := by
  obtain ⟨args, _, unfolded⟩ := interpret_alone fw fuel readable alone
  obtain ⟨free, _, _⟩ := scan_split _ _ readable
  rw [unfolded]
  by_cases piped : bar ∈ line
  · have isTrue : ∀ value, Returns (terminalTryPipeline fw parseFresh line) value → value = true :=
      fun value returned => (answers_terminalTryPipeline line value returned).trans
        (decide_eq_true piped)
    refine Or.inl ⟨?_, ?_, fun names _ name _ same => ?_⟩
    · refine Composed.sequence (composed_terminalTryPipeline line) (fun value returned => ?_)
      rw [isTrue value returned]
      exact Composed.pure false
    · refine answers_sequence (fun value returned => ?_)
      rw [isTrue value returned]
      exact answers_pure false
    · rw [commandOf, if_pos piped] at same
      cases same
  · have quiet : terminalTryPipeline fw parseFresh line = pure false := if_neg piped
    have named : commandOf line = (tokens terminalMaxArgs line).head? := if_neg piped
    rw [quiet, pure_bind, if_neg Bool.false_ne_true]
    cases found : tokens terminalMaxArgs line with
    | nil =>
      refine Or.inl ⟨Composed.pure false, answers_pure false, fun names _ name _ same => ?_⟩
      rw [named, found] at same
      cases same
    | cons word rest =>
      have member : word ∈ tokens terminalMaxArgs line := found ▸ List.mem_cons_self
      rw [argument_set rfl, pure_bind, List.isEmpty_cons, if_neg Bool.false_ne_true]
      have names : ∀ row ∈ commands fw (interpret fw parseFresh fuel) fuel (word :: rest) args,
          row.1 ∈ commandNames := fun row inTable =>
        commands_names fw (interpret fw parseFresh fuel) fuel (word :: rest) args ▸
          List.mem_map_of_mem inTable
      rcases dispatch_picks fw (word :: rest) (tokens_solid free member) _
          (fun row inTable => commandNames_solid row.1 (names row inTable)) with
        ⟨unknown, none⟩ | ⟨row, inTable, name, inRow, same, run⟩
      · refine Or.inl ⟨?_, ?_, fun rowNames isRow name inRow same => ?_⟩
        · rw [unknown]
          exact composed_reply _
        · rw [unknown]
          exact answers_reply _
        · rw [← commands_names fw (interpret fw parseFresh fuel) fuel (word :: rest) args] at isRow
          obtain ⟨row, inTable, rfl⟩ := List.mem_map.mp isRow
          rw [named, found, List.head?_cons] at same
          exact none row inTable name inRow (Option.some.inj same)
      · refine Or.inr ⟨args, row, inTable, name, inRow, ?_, List.cons_ne_nil word rest, run⟩
        rw [named, found, List.head?_cons, same]

end ExistentOS.Terminal
