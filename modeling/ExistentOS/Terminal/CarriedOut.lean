import ExistentOS.Terminal.Directories
import ExistentOS.Terminal.Pipelines
import ExistentOS.Terminal.Questions
import ExistentOS.Terminal.Storing

/-!
# Lines are carried out as described

The rows of the table of commands realize those of the description, one by one, and a word picks
the same row on both sides. By induction over the nesting of lists and scripts, the interpreter
carries out every line that fits the line buffer, and so does a session of such lines.
-/

namespace ExistentOS.Terminal

open Programs Terminated Runs Accounts Volume Eosfs

variable {File τ : Type} [DecidableEq File] {resolve : Text → File} {device : Firmware τ}
  {keys : Volume File × τ → List CHAR16} (keyboard : Keyboard (Volume.firmware resolve device) keys)

/-! ## The table -/

/-- A row of the table realizes the row of the description with the same names. -/
def RowRealizes (resolve : Text → File) (keys : Volume File × τ → List CHAR16)
    (row : List String × Routine (Volume File × τ) Bool)
    (job : List String × Job File Bool) : Prop :=
  row.1 = job.1 ∧ Realizes (Presents resolve keys) row.2 job.2

section Rows

include keyboard

/-- A row that shows a line of the source and nothing else. -/
theorem row_reply (names : List String) {message : String} (free : (0 : CHAR16) ∉ text message) :
    RowRealizes resolve keys (names, reply (Volume.firmware resolve device) message)
      (names, tellThat message) := ⟨rfl, realizes_reply keyboard free⟩

omit [DecidableEq File] keyboard in

/-- `@echo` switches the echo of the workspace. -/
theorem realizes_switchEcho {words : List Text}
    (solid : ∀ word ∈ words, ∀ unit ∈ word, unit ≠ 0 ∧ unit ≠ space) :
    Realizes (Presents resolve keys) (switchEcho words : Routine (Volume File × τ) Bool)
      (echoJob words : Job File Bool) := by
  rw [switchEcho, firstArgumentIs_words solid (by decide), pure_bind,
    firstArgumentIs_words solid (by decide), pure_bind, echoJob]
  apply realizes_ite (by simp)
  · intro off
    exact (realizes_setEcho false).bind fun _ => realizes_pure false
  intro others
  apply realizes_ite (by simp)
  · intro on
    exact (realizes_setEcho true).bind fun _ => realizes_pure false
  · intro none
    exact realizes_pure false

/-- `switchlang` changes the mode of the workspace. -/
theorem realizes_switchLanguage {words : List Text}
    (solid : ∀ word ∈ words, ∀ unit ∈ word, unit ≠ 0 ∧ unit ≠ space) :
    Realizes (Presents resolve keys) (switchLanguage (Volume.firmware resolve device) words)
      (languageJob words : Job File Bool) := by
  rw [switchLanguage, firstArgumentIs_words solid (by decide), pure_bind,
    firstArgumentIs_words solid (by decide), pure_bind, languageJob]
  apply realizes_ite (by simp)
  · intro bash
    exact (realizes_setMode .bash).bind fun _ => realizes_reply keyboard (by decide)
  intro others
  apply realizes_ite (by simp)
  · intro batch
    exact (realizes_setMode .batch).bind fun _ => realizes_reply keyboard (by decide)
  · intro none
    exact realizes_reply keyboard (by decide)

/-- The rows are those of the table, in its order. Both sides pick the first row with the name,
so the order matters. -/
theorem realizes_commands (records : Records device) {execute : Memory → Routine (Volume File × τ) Bool}
    {run : Text → Job File Bool}
    (realized : ∀ command line, scan command = some line → line.length < terminalMaxLine →
      Realizes (Presents resolve keys) (execute command) (run line))
    (fuel : Nat) {words : List Text}
    (nonempty : words ≠ []) (solid : ∀ word ∈ words, ∀ unit ∈ word, unit ≠ 0 ∧ unit ≠ space)
    (room : (words.map (·.length + 1)).sum ≤ terminalMaxLine) {memory : Memory} {args : Text}
    (readable : scan memory = some args) :
    List.Forall₂ (RowRealizes resolve keys)
      (commands (Volume.firmware resolve device) execute fuel words memory)
      (jobs resolve run fuel words args) := by
  have free : ∀ word ∈ words, (0 : CHAR16) ∉ word := fun word member zero =>
    (solid word member 0 zero).1 rfl
  have wordsFree : ∀ word ∈ words.tail, (0 : CHAR16) ∉ word := fun word member =>
    free word (List.mem_of_mem_tail member)
  have replies : ∀ (names : List String) {message : String}, (0 : CHAR16) ∉ text message →
      RowRealizes resolve keys (names, reply (Volume.firmware resolve device) message)
        (names, (tellThat message : Job File Bool)) := fun names _ => row_reply keyboard names
  have lines : ∀ {message : String}, (0 : CHAR16) ∉ text message →
      Realizes (Presents resolve keys) (say (Volume.firmware resolve device) message)
        (tell (text message) : Job File Unit) := realizes_say keyboard
  unfold commands jobs
  refine .cons ⟨rfl, realizes_switchEcho solid⟩ ?_
  refine .cons ⟨rfl, realizes_pure false⟩ ?_
  refine .cons ⟨rfl, realizes_switchLanguage keyboard solid⟩ ?_
  refine .cons (replies _ (by decide +kernel)) ?_
  refine .cons ⟨rfl, realizes_echo keyboard wordsFree⟩ ?_
  refine .cons ⟨rfl, (realizes_terminalRunNano keyboard fuel).bind fun _ => realizes_pure false⟩ ?_
  iterate 2 refine .cons (replies _ (by decide)) ?_
  refine .cons ⟨rfl, realizes_onFile keyboard free
    (fun path => realizes_cat keyboard fuel) (by decide)⟩ ?_
  refine .cons ⟨rfl, realizes_onFile keyboard free
    (fun path => realizes_touch keyboard) (by decide)⟩ ?_
  refine .cons ⟨rfl, realizes_onFile keyboard free
    (fun path => realizes_remove keyboard) (by decide)⟩ ?_
  refine .cons ⟨rfl, realizes_storeWords keyboard nonempty solid room⟩ ?_
  refine .cons ⟨rfl, realizes_onFile keyboard free
    (fun path => realizes_source keyboard realized) (by decide)⟩ ?_
  iterate 3 refine .cons (replies _ (by decide)) ?_
  refine .cons ⟨rfl, (realizes_writeLine keyboard readable).bind
    fun _ => realizes_pure false⟩ ?_
  refine .cons (replies _ (by decide)) ?_
  refine .cons ⟨rfl, realizes_listDrive keyboard records words⟩ ?_
  refine .cons (replies _ (by decide)) ?_
  refine .cons ⟨rfl, (lines (by decide)).bind fun _ => (lines (by decide)).bind
    fun _ => realizes_reply keyboard (by decide)⟩ ?_
  refine .cons (replies _ (by decide)) ?_
  refine .cons ⟨rfl, (lines (by decide)).bind fun _ => realizes_pure true⟩ ?_
  iterate 5 refine .cons (replies _ (by decide)) ?_
  refine .cons ⟨rfl, realizes_changeDirectory keyboard words⟩ ?_
  iterate 6 refine .cons (replies _ (by decide)) ?_
  refine .cons ⟨rfl, realizes_showUser keyboard⟩ ?_
  refine .cons ⟨rfl, realizes_grepWords keyboard free⟩ ?_
  refine .cons ⟨rfl, realizes_showUsers keyboard⟩ ?_
  refine .cons ⟨rfl, realizes_addUser keyboard free⟩ ?_
  refine .cons ⟨rfl, realizes_changePassword keyboard fuel⟩ ?_
  refine .cons ⟨rfl, (realizes_terminalLogin keyboard fuel).bind fun _ => realizes_pure false⟩ ?_
  refine .cons (replies _ (by decide)) ?_
  refine .cons ⟨rfl, (realizes_setMode .bash).bind fun _ =>
    realizes_reply keyboard (by decide)⟩ ?_
  refine .cons ⟨rfl, (realizes_setMode .batch).bind fun _ =>
    realizes_reply keyboard (by decide)⟩ ?_
  exact .nil

/-! ## Picking a row -/

omit [DecidableEq File] keyboard in

/-- Recording a command cannot be seen, as it shows nothing. -/
theorem Presents.recorded {machine : Machine (Volume File × τ)} {workspace : Workspace File}
    (presents : Presents resolve keys machine workspace) (name : String) (argv : List Text) :
    Presents resolve keys (commanded machine name argv) workspace := by
  have shown : Screen workspace.shown (output (commanded machine name argv).trace) := by
    simpa [commanded, output, written] using presents.shown
  exact { presents with refines := refines_same presents.refines rfl rfl rfl, shown }

/-- A word runs what the description picks for it.

Induct over the rows, which have the same names on both sides. -/
theorem realizes_dispatch (argv : List Text) {word : Text}
    (solid : ∀ unit ∈ word, unit ≠ 0 ∧ unit ≠ space)
    {table : List (List String × Routine (Volume File × τ) Bool)}
    {described : List (List String × Job File Bool)}
    (rows : List.Forall₂ (RowRealizes resolve keys) table described)
    (free : ∀ row ∈ table, ∀ name ∈ row.1, (0 : CHAR16) ∉ text name) :
    Realizes (Presents resolve keys)
      (dispatch (Volume.firmware resolve device) argv (word ++ [0]) table)
      (pick word described) := by
  induction rows with
  | nil =>
    have message : (0 : CHAR16) ∉ text "unknown command" := by decide
    exact realizes_reply keyboard message
  | @cons row job table described here _ ih =>
    obtain ⟨names, run⟩ := row
    obtain ⟨_, jobRun⟩ := job
    obtain ⟨rfl, realized⟩ := here
    have later := ih fun row member => free row (List.mem_cons_of_mem _ member)
    have first := matchedName_word solid names (free _ List.mem_cons_self)
    cases found : names.find? fun name => decide (word = text name) with
    | some name =>
      have chosen : names.any (word = text ·) = true := by
        have same := List.find?_some found
        exact List.any_eq_true.mpr ⟨name, List.mem_of_find?_eq_some found, same⟩
      have step : dispatch (Volume.firmware resolve device) argv (word ++ [0])
          ((names, run) :: table) = (do record name argv; run) := by
        rw [dispatch, first, found]
        rfl
      rw [step, pick, if_pos chosen]
      apply Realizes.prepared _ realized
      intro machine workspace presents
      exact ⟨(), _, run_record name argv machine, presents.recorded name argv⟩
    | none =>
      have others : ¬ names.any (word = text ·) = true := by
        simpa using List.find?_eq_none.mp found
      have step : dispatch (Volume.firmware resolve device) argv (word ++ [0])
          ((names, run) :: table) =
            dispatch (Volume.firmware resolve device) argv (word ++ [0]) table := by
        rw [dispatch, first, found]
        rfl
      rw [step, pick, if_neg others]
      exact later

/-! ## Pipelines -/

/-- A pipeline shows what is described, and the shell goes on. Pipelines other than `echo` into
`grep` are refused on both sides. -/
theorem realizes_pipeline {line left right : Text} (piped : Piped line left right)
    (rest : Routine (Volume File × τ) Bool) :
    Realizes (Presents resolve keys) (do
        if ← terminalTryPipeline (Volume.firmware resolve device) parseFresh line then return false
        else rest)
      (pipelineJob left right : Job File Bool) := by
  have shown : ∀ {texts : List Text}, Shows (Volume.firmware resolve device) texts true
      (terminalTryPipeline (Volume.firmware resolve device) parseFresh line) →
      Shows (Volume.firmware resolve device) texts false (do
        if ← terminalTryPipeline (Volume.firmware resolve device) parseFresh line then return false
        else rest) := by
    intro texts showing machine
    rw [run_bind_of_ok (showing machine)]
    rfl
  have echoes_words : Echoes left ↔
      (runs isBlank left).head? = some (text "echo") ∧ 2 ≤ (runs isBlank left).length := by
    rw [Echoes]
    rcases runs isBlank left with _ | ⟨first, _ | ⟨second, others⟩⟩ <;> simp
  rw [pipelineJob]
  by_cases echoes : Echoes left
  · rw [if_pos (echoes_words.mp echoes)]
    by_cases greps : ∃ pattern, Greps right pattern
    · obtain ⟨pattern, greps⟩ := greps
      have words : runs isBlank right = [text "grep", pattern] := greps
      rw [words]
      dsimp only
      rw [if_pos rfl]
      have showing := shown (pipeline_shows piped echoes greps)
      by_cases contains : pattern <:+: trimmed (left.drop 5)
      · rw [if_pos contains] at showing ⊢
        exact realizes_shows keyboard showing (by simp)
      · rw [if_neg contains] at showing ⊢
        intro machine workspace presents value after' ran
        cases ran
        exact ⟨machine, showing machine, presents⟩
    · have showing := shown (pipeline_unsearched piped echoes fun pattern found =>
        greps ⟨pattern, found⟩)
      have usage : Realizes (Presents resolve keys) _
          (tellThat "usage: echo <text> | grep <pattern>" : Job File Bool) :=
        realizes_shows keyboard showing (by simp)
      split
      · rename_i name pattern words
        have other : name ≠ text "grep" := by
          rintro rfl
          exact greps ⟨pattern, words⟩
        rwa [if_neg other]
      · exact usage
  · rw [if_neg (mt echoes_words.mpr echoes)]
    exact realizes_shows keyboard (shown (pipeline_unechoed piped echoes)) (by simp)

/-! ## The interpreter -/

/-- A line without ampersands and bars runs the command of its first word. -/
theorem realizes_command (records : Records device) {fuel : Nat} {command : Memory} {line : Text}
    (readable : scan command = some line) (alone : ampersand ∉ line) (unpiped : bar ∉ line)
    (inner : ∀ command line, scan command = some line → line.length < terminalMaxLine →
      Realizes (Presents resolve keys)
        (interpret (Volume.firmware resolve device) parseFresh fuel command)
        (carryOut resolve fuel line)) :
    Realizes (Presents resolve keys)
      (interpret (Volume.firmware resolve device) parseFresh (fuel + 1) command)
      (match tokens terminalMaxArgs line with
        | [] => return false
        | word :: rest => pick word
          (jobs resolve (carryOut resolve fuel) fuel (word :: rest) (argsOf line))) := by
  obtain ⟨args, found, unfolded⟩ :=
    interpret_alone (Volume.firmware resolve device) fuel readable alone
  obtain ⟨_, same, argsRead⟩ := terminalCommandArgs_scan readable
  obtain rfl := Option.some.inj (found.symm.trans same)
  have free := (scan_split _ _ readable).1
  have quiet : terminalTryPipeline (Volume.firmware resolve device) parseFresh line = pure false :=
    if_neg unpiped
  have solid : ∀ word ∈ tokens terminalMaxArgs line, ∀ unit ∈ word, unit ≠ 0 ∧ unit ≠ space :=
    fun word member => tokens_solid free member
  have room := tokens_room line
  rw [unfolded, quiet, pure_bind, if_neg Bool.false_ne_true]
  cases words : tokens terminalMaxArgs line with
  | nil => exact realizes_pure false
  | cons word rest =>
    rw [words] at solid room
    have names : ∀ row ∈ commands (Volume.firmware resolve device)
        (interpret (Volume.firmware resolve device) parseFresh fuel) fuel (word :: rest) args,
        ∀ name ∈ row.1, (0 : CHAR16) ∉ text name := by
      intro row member
      apply commandNames_solid
      rw [← commands_names (Volume.firmware resolve device)
        (interpret (Volume.firmware resolve device) parseFresh fuel) fuel (word :: rest) args]
      exact List.mem_map_of_mem member
    rw [argument_set rfl, pure_bind, List.isEmpty_cons, if_neg Bool.false_ne_true]
    exact realizes_dispatch keyboard (word :: rest) (solid word List.mem_cons_self)
      (realizes_commands keyboard records inner fuel (List.cons_ne_nil word rest) solid room argsRead)
      names

/-- The interpreter carries out the lines that fit the line buffer.

Induct over the nesting. Both sides of an ampersand fit if the line does. -/
theorem realizes_interpret (records : Records device) (fuel : Nat) {command : Memory} {line : Text}
    (readable : scan command = some line) (fits : line.length < terminalMaxLine) :
    Realizes (Presents resolve keys)
      (interpret (Volume.firmware resolve device) parseFresh fuel command)
      (carryOut resolve fuel line) := by
  induction fuel generalizing command line with
  | zero => exact realizes_throw _ Beyond.nesting
  | succ fuel ih =>
    have free := (scan_split _ _ readable).1
    rw [carryOut]
    by_cases joined : ampersand ∈ line
    · obtain ⟨front, behind, rfl, first⟩ := List.eq_append_cons_of_mem joined
      obtain ⟨taken, dropped⟩ := cut_first first behind
      rw [if_pos joined, interpret_split fuel readable first, taken, dropped, List.tail_cons]
      have segment : ∀ {side : Text}, side.length < terminalMaxLine → (0 : CHAR16) ∉ side →
          Realizes (Presents resolve keys)
            (interpret (Volume.firmware resolve device) parseFresh fuel (terminalCopySegment side))
            (carryOut resolve fuel (trimmed side)) := by
        intro side short sideFree
        have trimmedFree : (0 : CHAR16) ∉ trimmed side := fun zero =>
          sideFree (trimmed_subset side zero)
        rw [terminalCopySegment_fits (Nat.le_sub_one_of_lt short)]
        exact ih (scan_append _ [] trimmedFree) ((trimmed_length side).trans_lt short)
      rw [List.length_append, List.length_cons] at fits
      rw [List.mem_append, List.mem_cons, not_or, not_or] at free
      exact (segment (by omega) free.1).bind fun _ => segment (by omega) free.2.2
    · rw [if_neg joined]
      by_cases piped : bar ∈ line
      · obtain ⟨left, right, rfl, first⟩ := List.eq_append_cons_of_mem piped
        obtain ⟨taken, dropped⟩ := cut_first first right
        obtain ⟨args, _, unfolded⟩ :=
          interpret_alone (Volume.firmware resolve device) fuel readable joined
        rw [if_pos piped, unfolded, taken, dropped, List.tail_cons]
        exact realizes_pipeline keyboard ⟨rfl, first, free, Nat.le_sub_one_of_lt fits⟩ _
      · rw [if_neg piped]
        exact realizes_command keyboard records readable joined piped fun _ _ => ih

/-! ## Lines -/

omit [DecidableEq File] keyboard in

/-- The line buffer cannot be seen. This lets the interpreter be replaced by the one with words
of their own. -/
theorem Presents.withLine {machine : Machine (Volume File × τ)} {workspace : Workspace File}
    (presents : Presents resolve keys machine workspace) (line : Vector CHAR16 128) :
    Presents resolve keys (machine.withLine line) workspace :=
  { presents with refines := refines_same presents.refines rfl rfl rfl }

/-- `terminal_execute_command` carries out the lines that fit the line buffer. The induction is
on the fuel, which both sides use up alike. -/
theorem realizes_terminalExecuteCommand (records : Records device) (fuel : Nat) {command : Memory} {line : Text}
    (readable : scan command = some line) (fits : line.length < terminalMaxLine) :
    Realizes (Presents resolve keys)
      (terminalExecuteCommand (Volume.firmware resolve device) fuel command)
      (carryOut resolve fuel line) := by
  intro machine workspace presents value after' ran
  obtain ⟨after, returned, held⟩ :=
    realizes_interpret keyboard records fuel readable fits machine workspace presents value after' ran
  obtain ⟨buffer, same⟩ := run_alike (coupled_interpret fuel machine.terminal.line command) returned
  exact ⟨_, same, held.withLine buffer⟩

/-! ## The shell -/

omit [DecidableEq File] keyboard in

/-- The prompt is the one of the workspace. -/
theorem Presents.prompt {machine : Machine (Volume File × τ)} {workspace : Workspace File}
    (presents : Presents resolve keys machine workspace) :
    terminalCurrentPrompt machine.terminal = workspace.prompt ++ [0] ∧
      (0 : CHAR16) ∉ workspace.prompt := by
  constructor
  · rw [terminalCurrentPrompt, Workspace.prompt, presents.mode, presents.drive]
    cases workspace.mode <;> simp [constant]
  · have letter : workspace.drive ≠ 0 := presents.drive ▸ presents.letter
    rw [Workspace.prompt]
    cases workspace.mode <;> simp [letter.symm, text]

/-- A round of the shell carries out the next line, unless it is empty. -/
theorem realizes_shellRound (records : Records device) (fuel : Nat) (round : Unit) :
    Realizes (Presents resolve keys) (shellRound (Volume.firmware resolve device) fuel round)
      (shellLine resolve fuel round) := by
  apply realizes_view
  intro machine workspace presents
  obtain ⟨prompt, free⟩ := presents.prompt
  have entered : (get : Routine (Volume File × τ) _).run machine = .ok (machine, machine) := rfl
  rw [shellRound, run_bind_of_ok entered, prompt, ← bind_assoc]
  refine realizes_ask keyboard (by decide) le_rfl free ?_ machine workspace presents
  intro line lineFree fits length blank
  have readable := scan_append line [] lineFree
  apply realizes_ite blank
  · intro empty
    exact realizes_pure (Sum.inl ())
  · intro nonempty
    apply (realizes_terminalExecuteCommand keyboard records fuel readable fits).bind
    intro ended
    exact realizes_ite Iff.rfl (fun _ => realizes_pure (Sum.inr ()))
      (fun _ => realizes_pure (Sum.inl ()))

/-- The shell of the machine is the shell of the workspace. Each of its lines is read from the
keyboard and run by the interpreter, so the proof goes through both. -/
theorem realizes_terminalRunShell (records : Records device) (fuel : Nat) :
    Realizes (Presents resolve keys) (terminalRunShell (Volume.firmware resolve device) fuel)
      (shellJob resolve fuel) := by
  have ready : (0 : CHAR16) ∉ text "Fisix OS shell ready" := by decide
  apply (realizes_say keyboard ready).bind
  intro _
  exact realizes_iterate (realizes_shellRound keyboard records fuel) fuel ()

end Rows

/-! ## Sessions -/

/-- The keyboard of the device is the one of a volume on it. -/
theorem keyboard_volume {keys : τ → List CHAR16} (keyboard : Keyboard device keys) :
    Keyboard (Volume.firmware resolve device) (fun state => keys state.2) where
  readKeyStroke state := keyboard.readKeyStroke state.2
  outputString shown state := keyboard.outputString shown state.2
  locateProtocol _ := rfl
  openVolume fs state := by
    rw [firmware_openVolume]
  openFile _ _ _ _ _ := rfl
  close _ _ := rfl
  delete _ _ := rfl
  read file size state := by
    simp only [Volume.firmware]
    split
    · rfl
    · exact keyboard.read file size state.2
  write _ _ _ := rfl
  setPosition _ _ _ := rfl
  flush _ _ := rfl

/-- `terminal_run_shell` carries out the lines that are typed: if the description of the shell ends
with the first line that ends it, so does the shell, and its machine then presents the files, the
settings, the screen and the keyboard of the description. -/
theorem terminalRunShell_refines {keys : Volume File × τ → List CHAR16}
    (keyboard : Keyboard (Volume.firmware resolve device) keys) (records : Records device) (fuel : Nat)
    {machine : Machine (Volume File × τ)} {workspace after' : Workspace File}
    (presents : Presents resolve keys machine workspace)
    (ended : (shellJob resolve fuel).run workspace = .ok ((), after')) :
    ∃ after, (terminalRunShell (Volume.firmware resolve device) fuel).run machine =
      .ok ((), after) ∧ Presents resolve keys after after' :=
  realizes_terminalRunShell keyboard records fuel machine workspace presents () after' ended

/-- The keyboard has no directories, so its reads hand out whole records. -/
theorem records_typed : Records Terminal.keyboard := fun _ _ =>
  ⟨Nat.zero_le _, fun goes => absurd (Or.inr rfl) goes⟩

/-- A machine without files that knows the administrator, on whose keyboard some lines have been
typed. -/
def typedAhead (lines : List String) : Machine (Volume Text × List CHAR16) :=
  let volume : Volume Text := ⟨fun _ => none, fun _ => none, 0, []⟩
  (Machine.entered (volume, linesTyped (lines.map text))).withAccounts
    ((builtIn initialAccounts).getD initialAccounts)

/-- The workspace that it presents. -/
def emptyWorkspace (lines : List String) : Workspace Text where
  files _ := none
  mode := .batch
  echo := true
  drive := 0x42
  path := text "B:/"
  registry := initialRegistry
  users := [adminName]
  shown := []
  typed := linesTyped (lines.map text)

/-- The machine with lines typed ahead presents the empty workspace with these lines to come. -/
theorem typedAhead_presents (lines : List String) :
    Presents id (fun state => state.2) (typedAhead lines) (emptyWorkspace lines) where
  writes := rfl
  reads := rfl
  letter := (by decide : initialTerminal.currentDrive ≠ 0)
  refines := by
    obtain ⟨account, built, isBuiltIn⟩ := builtIn_exact initialAccounts
    have table : (typedAhead lines).accounts = fallback initialAccounts account := by
      simp [typedAhead, built]
    refine ⟨⟨rfl, rfl⟩, ?_, Or.inl ⟨rfl, rfl⟩⟩
    rw [table]
    exact represents_fallback initialAccounts account isBuiltIn
  files _ _ := rfl
  mode := rfl
  echo := rfl
  drive := rfl
  path := (by decide : scan initialTerminal.currentPath.toList = some (text "B:/"))
  users := (by decide : roster ((builtIn initialAccounts).getD initialAccounts) = [some adminName])
  table := (by decide : ∀ listed ∈ tableShown initialEosfs, listed.isSome)
  shown := .nothing
  typed := rfl

/-- Lines that add a user, who logs in, takes another password and runs a script. -/
def scriptSession : List String :=
  ["login", "admin", "fisix", "useradd bob secret", "nano", "a line", "save", "login", "bob",
    "secret", "passwd", "secret", "hidden", "write s users", "append s whoami", "source s & cat s",
    "rm s | grep x", "rm s", "ls C:", "exit"]

/-- A session that writes a script and runs it ends where the workspace says. -/
theorem terminalRunShell_refines_script : ∃ after,
    (terminalRunShell (Volume.firmware id Terminal.keyboard) 30).run (typedAhead scriptSession) =
      .ok ((), after) ∧
    Presents id (fun state => state.2) after
      (finalState (shellJob id 30) (emptyWorkspace scriptSession)) :=
  terminalRunShell_refines (keyboard_volume keyboard_typed) records_typed 30 (typedAhead_presents scriptSession)
    (run_finalState (by decide +kernel))

end ExistentOS.Terminal
