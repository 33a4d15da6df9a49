import ExistentOS.Accounts.AccountFrames
import ExistentOS.Terminal.Interpreter
import ExistentOS.Terminal.Tokens

/-!
# What the interpreter is composed of

The interpreter over tokens of its own, command by command. Most commands make quiet steps
only. What is left are the records of the commands, the few commands that write or delete
files, touch the accounts or change the drive, and the reasons for which a routine stops.
-/

namespace ExistentOS.Terminal

open Programs Terminated Runs Accounts Eosfs

variable {σ : Type} {fw : Firmware σ} {reasons : Stop → Prop}
  {further : (α : Type) → Routine σ α → Prop}

/-! ## Words of a line -/

/-- A word that has been set is read. -/
theorem composed_argument {argv : List Text} {index : Nat} (set : index < argv.length) :
    Composed fw reasons further (argument argv index) := by
  apply Composed.orStop_bind
  · intro unset
    exact absurd (List.getElem?_eq_none_iff.mp unset) (Nat.not_le_of_lt set)
  · intro token _
    exact Composed.view (fun _ _ => rfl) (fun _ => Composed.pure (token ++ [0]))

/-- A word that is read is terminated, since words are tokens with their ends. -/
theorem argument_ends {argv : List Text} {index : Nat} (memory : Memory)
    (returned : Returns (argument argv index : Routine σ Memory) memory) : (0 : CHAR16) ∈ memory := by
  revert memory
  apply returns_of_wp
  intro machine
  rw [argument, wp_bind, wp_orOverrun]
  refine ⟨fun token _ => ?_, fun _ => trivial⟩
  exact List.mem_append_right token List.mem_cons_self

/-- Recognising a command reads the first word. That word is there whenever the count of words
was found to be admissible. -/
theorem composed_isCall {admissible : Bool} {argv : List Text} (name : String)
    (set : admissible = true → 0 < argv.length) :
    Composed fw reasons further (isCall admissible argv name) := by
  apply Composed.ite
  · intro admitted
    apply Composed.sequence (composed_argument (set admitted))
    intro word returned
    exact Composed.orStop fun unread =>
      absurd unread (terminalMatchCommand_ends (argument_ends word returned) (constant_ends name))
  · intro _
    exact Composed.pure false

/-- A call is recognized among admissible lines only. -/
theorem isCall_admissible {condition : Prop} [Decidable condition] {argv : List Text} {name : String}
    (returned : Returns (isCall (decide condition) argv name : Routine σ Bool) true) : condition := by
  by_contra refused
  obtain ⟨state, after, ran⟩ := returned
  rw [isCall, decide_eq_false refused, if_neg Bool.false_ne_true] at ran
  cases ran

/-- The first word of a line that is recognized matches the name. -/
theorem isCall_matches {condition : Prop} [Decidable condition] {argv : List Text} {name : String}
    (returned : Returns (isCall (decide condition) argv name : Routine σ Bool) true) :
    ∃ word, argv[0]? = some word ∧
      terminalMatchCommand (word ++ [0]) (constant name) = some true := by
  have admitted := isCall_admissible returned
  obtain ⟨state, after, ran⟩ := returned
  rw [isCall, decide_eq_true admitted, if_pos rfl] at ran
  cases first : argv[0]? with
  | none =>
    rw [argument, first] at ran
    cases ran
  | some word =>
    refine ⟨word, rfl, ?_⟩
    rw [argument, first] at ran
    cases matched : terminalMatchCommand (word ++ [0]) (constant name) with
    | none =>
      have stopped : (orOverrun (terminalMatchCommand (word ++ [0]) (constant name)) :
          Routine σ Bool).run state = .ok (true, after) := ran
      rw [matched] at stopped
      cases stopped
    | some found =>
      have returned : (orOverrun (terminalMatchCommand (word ++ [0]) (constant name)) :
          Routine σ Bool).run state = .ok (true, after) := ran
      rw [matched] at returned
      cases returned
      rfl

/-- Comparing the first argument tests first that there is one. -/
theorem composed_firstArgumentIs (argv : List Text) (name : String) :
    Composed fw reasons further (firstArgumentIs argv name) := by
  apply Composed.ite
  · intro set
    apply Composed.sequence (composed_argument set)
    intro word returned
    exact Composed.orStop fun unread =>
      absurd unread (terminalMatchCommand_ends (argument_ends word returned) (constant_ends name))
  · intro _
    exact Composed.pure false

/-! ## Replies -/

/-- A text of the source is terminated, so writing it cannot overrun. -/
theorem composed_say (message : String) : Composed fw reasons further (say fw message) :=
  composed_terminalWriteLine (Or.inl (constant_ends message))

/-- A reply is printed by quiet steps alone. -/
theorem composed_reply (message : String) : Composed fw reasons further (reply fw message) :=
  Composed.bind (composed_say message) (fun _ => Composed.pure false)

/-- Printing the usage needs quiet steps alone. -/
theorem composed_orUsage (done : Bool) (usage : String) :
    Composed fw reasons further (orUsage fw done usage) :=
  Composed.ite (fun _ => Composed.pure false) (fun _ => composed_reply usage)

/-- Switching the echo is a quiet step. -/
theorem composed_setEcho (enabled : Bool) : Composed fw reasons further (setEcho enabled) :=
  Composed.setModes ⟨fun _ => rfl, fun _ => rfl, fun _ _ => rfl⟩

/-- Setting the mode is a quiet step. -/
theorem composed_setMode (mode : TerminalMode) : Composed fw reasons further (setMode mode) :=
  Composed.setModes ⟨fun _ => rfl, fun _ => rfl, fun _ _ => rfl⟩

/-! ## Quiet commands -/

/-- `@echo` is made of quiet steps. -/
theorem composed_switchEcho (argv : List Text) :
    Composed fw reasons further (switchEcho argv) := by
  apply Composed.bind (composed_firstArgumentIs argv "off")
  intro off
  apply Composed.ite
  · intro _
    exact Composed.bind (composed_setEcho false) (fun _ => Composed.pure false)
  · intro _
    apply Composed.bind (composed_firstArgumentIs argv "on")
    intro on
    apply Composed.ite
    · intro _
      exact Composed.bind (composed_setEcho true) (fun _ => Composed.pure false)
    · intro _
      exact Composed.pure false

/-- `switchlang` is made of quiet steps. -/
theorem composed_switchLanguage (argv : List Text) :
    Composed fw reasons further (switchLanguage fw argv) := by
  apply Composed.bind (composed_firstArgumentIs argv "bash")
  intro bash
  apply Composed.ite
  · intro _
    exact Composed.bind (composed_setMode .bash) (fun _ => composed_reply _)
  · intro _
    apply Composed.bind (composed_firstArgumentIs argv "batch")
    intro batch
    apply Composed.ite
    · intro _
      exact Composed.bind (composed_setMode .batch) (fun _ => composed_reply _)
    · intro _
      exact composed_reply _

/-- Writing the words of a line, by induction over them. -/
theorem composed_terminalWriteArgList (separate : Bool) (argv : List Text) :
    Composed fw reasons further (terminalWriteArgList fw separate argv) := by
  induction argv generalizing separate with
  | nil => exact Composed.pure ()
  | cons token rest ih =>
    have word : Composed fw reasons further (do
        let machine ← get
        terminalWrite fw (Word.memory machine.terminal token)
        terminalWriteArgList fw true rest) :=
      Composed.view (fun _ _ => rfl)
        (fun _ => Composed.bind (composed_written token) (fun _ => ih true))
    apply Composed.ite
    · intro _
      exact Composed.bind (composed_written [space]) (fun _ => word)
    · intro _
      exact word

/-- A terminated line is taken apart without any effect. -/
theorem composed_parseFresh {command : Memory} (ends : (0 : CHAR16) ∈ command ∨ reasons .overrun)
    (maxArgs : Nat) : Composed fw reasons further (parseFresh command maxArgs) :=
  Composed.bind (Composed.orOverrun ends) (fun line => Composed.pure (tokens maxArgs line))

/-- A line is taken apart into the words of its text. -/
theorem parseFresh_returns {command : Memory} {maxArgs : Nat} (argv : List Text)
    (returned : Returns (parseFresh command maxArgs : Routine σ (List Text)) argv) :
    ∃ line, scan command = some line ∧ argv = tokens maxArgs line := by
  revert argv
  apply returns_of_wp
  intro machine
  rw [parseFresh, wp_bind, wp_orOverrun]
  exact ⟨fun line found => ⟨line, found, rfl⟩, fun _ => trivial⟩

/-- The text to be echoed starts within the left side of a pipeline. -/
theorem behind_echo (left : Text) (argv : List Text) (two : 2 ≤ argv.length)
    (parsed : Returns (parseFresh (terminalCopySegment left) terminalMaxArgs :
      Routine σ (List Text)) argv)
    (echoes : Returns (isCall (argv.length ≥ 2) argv "echo" : Routine σ Bool) true) :
    behind 5 left = some (left.drop 5) := by
  obtain ⟨line, found, rfl⟩ := parseFresh_returns argv parsed
  obtain ⟨word, first, matched⟩ := isCall_matches echoes
  have long : 4 ≤ word.length :=
    terminalMatchCommand_length word (text "echo") (by decide) matched
  have fits := terminalCopySegment_scan left line found
  rw [tokens, List.length_take] at two
  rcases pieces : runs isBlank (line.take (terminalMaxLine - 1)) with _ | ⟨first', _ | ⟨second, others⟩⟩
  · rw [pieces] at two
    simp at two
  · rw [pieces] at two
    simp at two
  · rw [tokens, pieces] at first
    obtain rfl : first' = word := Option.some.inj first
    have room := runs_first_length isBlank pieces
    rw [List.length_take] at room
    rw [behind, if_pos (by omega)]

/-- A pipeline only writes, whatever stands on its two sides. -/
theorem composed_terminalTryPipeline (line : Text) :
    Composed fw reasons further (terminalTryPipeline fw parseFresh line) := by
  apply Composed.ite
  · intro _
    apply Composed.sequence (composed_parseFresh (Or.inl (terminalCopySegment_ends _)) _)
    intro left parsed
    have enough : decide (left.length ≥ 2) = true → 0 < left.length := by
      simp only [decide_eq_true_eq]
      omega
    apply Composed.sequence (composed_isCall "echo" enough)
    intro echo echoed
    apply Composed.ite
    · intro isEcho
      apply Composed.bind (composed_parseFresh (Or.inl (terminalCopySegment_ends _)) _)
      intro right
      have enough : decide (right.length = 2) = true → 0 < right.length := by
        simp only [decide_eq_true_eq]
        omega
      apply Composed.sequence (composed_isCall "grep" enough)
      intro grep returned
      apply Composed.ite
      · intro isGrep
        have two : right.length = 2 := isCall_admissible (isGrep ▸ returned)
        subst isEcho
        apply Composed.orStop_bind
        · intro outside
          rw [behind_echo _ left (isCall_admissible echoed) parsed echoed] at outside
          cases outside
        intro text _
        apply Composed.sequence (composed_argument (by omega))
        intro needle read
        apply Composed.bind
        · exact Composed.orStop fun unread => absurd unread
            (terminalContains_ends (terminalCopySegment_ends _) (argument_ends needle read))
        · intro found
          apply Composed.ite
          · intro _
            exact Composed.bind (composed_terminalWriteLine (Or.inl (terminalCopySegment_ends _)))
              (fun _ => Composed.pure true)
          · intro _
            exact Composed.pure true
      · intro _
        exact Composed.bind (composed_say _) (fun _ => Composed.pure true)
    · intro _
      exact Composed.bind (composed_say _) (fun _ => Composed.pure true)
  · intro _
    exact Composed.pure false

/-- Showing a listing, by induction over its entries. -/
theorem composed_showEntries (field : reasons .fault) (entries : List ListedEntry) :
    Composed fw reasons further (showEntries fw entries) := by
  induction entries with
  | nil => exact Composed.pure ()
  | cons entry rest ih =>
    apply Composed.bind (composed_terminalWriteField (Or.inr field))
    intro _
    apply Composed.bind (composed_written [space])
    intro _
    apply Composed.bind
    · apply composed_terminalWrite
      refine Or.inl ?_
      split
      · exact constant_ends _
      · exact constant_ends _
    · intro _
      exact Composed.bind (composed_terminalWriteLine (Or.inl (by simp))) (fun _ => ih)

/-- A file command with one argument is composed as its work on the file is. -/
theorem composed_onFile (argv : List Text) {command : Memory → Routine σ Bool} (usage : String)
    (composed : ∀ path : Memory, (0 : CHAR16) ∈ path → Composed fw reasons further (command path)) :
    Composed fw reasons further (onFile fw argv command usage) := by
  apply Composed.ite
  · intro two
    apply Composed.sequence (composed_argument (by omega))
    intro path read
    exact Composed.bind (composed path (argument_ends path read))
      (fun done => composed_orUsage done usage)
  · intro _
    exact composed_reply usage

/-- Searching the words of a line, by induction over them. -/
theorem composed_showMatching {needle : Memory} (needleEnds : (0 : CHAR16) ∈ needle)
    (found : List Memory) (ends : ∀ word ∈ found, (0 : CHAR16) ∈ word) :
    Composed fw reasons further (showMatching fw needle found) := by
  induction found with
  | nil => exact Composed.pure ()
  | cons word rest ih =>
    have wordEnds : (0 : CHAR16) ∈ word := ends word List.mem_cons_self
    have tail := ih fun later member => ends later (List.mem_cons_of_mem word member)
    apply Composed.bind
    · exact Composed.orStop fun unread =>
        absurd unread (terminalContains_ends wordEnds needleEnds)
    · intro contained
      apply Composed.ite
      · intro _
        exact Composed.bind (composed_terminalWriteLine (Or.inl wordEnds)) (fun _ => tail)
      · intro _
        exact tail

/-- Tokens are terminated. -/
theorem tokens_end (terminal : TerminalStorage) (argv : List Text) :
    ∀ word ∈ argv.map (Word.memory terminal), (0 : CHAR16) ∈ word := by
  intro word member
  obtain ⟨token, _, rfl⟩ := List.mem_map.mp member
  exact List.mem_append_right token List.mem_cons_self

/-- `grep` is made of quiet steps. All its words end, so no search runs past one. -/
theorem composed_grepWords (argv : List Text) :
    Composed fw reasons further (grepWords fw argv) := by
  apply Composed.ite
  · intro _
    exact composed_reply _
  · intro enough
    apply Composed.sequence (composed_argument (by omega))
    intro needle read
    apply Composed.view (fun _ _ => rfl)
    intro machine
    exact Composed.bind (composed_showMatching (argument_ends needle read) _
      (tokens_end machine.terminal (argv.drop 2))) (fun _ => Composed.pure false)

section Fields

variable (field : reasons .fault)
include field

/-- A drive is shown by quiet steps, and may stop where a name of the listing has no terminator. -/
theorem composed_terminalShowDriveRoot (drive : CHAR16) :
    Composed fw reasons further (terminalShowDriveRoot fw drive) := by
  apply Composed.bind (composed_eosfsListPath _)
  intro listed
  cases listed with
  | none => exact composed_say _
  | some entries => exact Composed.bind (composed_say _) (fun _ => composed_showEntries field entries)

/-- `whoami` prints a field of the table, and may stop where the field has no terminator. -/
theorem composed_showUser : Composed fw reasons further (showUser fw) := by
  apply Composed.view (fun _ _ => rfl)
  intro machine
  apply Composed.bind (Composed.orStop fun _ => Or.inr field)
  intro name
  exact Composed.bind (composed_terminalWriteFieldLine (Or.inr field)) (fun _ => Composed.pure false)

/-- `users` prints a field of the table for each account that is counted, and may stop where one
has no terminator. -/
theorem composed_showUsers : Composed fw reasons further (showUsers fw) := by
  apply Composed.view (fun _ _ => rfl)
  intro machine
  apply Composed.bind
  · apply Composed.forM
    intro index _
    exact Composed.bind (Composed.orStop fun _ => Or.inr field)
      (fun _ => composed_terminalWriteFieldLine (Or.inr field))
  · intro _
    exact Composed.pure false

end Fields

/-! ## Interactive commands -/

/-- What is read from a console is terminated. -/
theorem terminalReadLine_ends {fuel maxLength : Nat} (room : 0 < maxLength) (line : Int32 × Memory)
    (returned : Returns (terminalReadLine fw fuel maxLength) line) (stored : line.1 ≠ 0) :
    (0 : CHAR16) ∈ line.2 := by
  rcases terminalReadLine_returns fw room line returned with rfl | ⟨typed, _, rfl⟩
  · exact absurd rfl stored
  · exact List.mem_append_right typed List.mem_cons_self

/-- Every string of a list is terminated, or was never written. The latter is what a missing
keyboard leaves. -/
def ReadOrUnset (arguments : List Memory) : Prop :=
  ∀ argument ∈ arguments, argument = [] ∨ (0 : CHAR16) ∈ argument

/-- Two lines of the editor are read lines, or the editor never stored anything in them. -/
theorem readOrUnset_pair {first second : Memory} (firstEnds : first = [] ∨ (0 : CHAR16) ∈ first)
    (secondEnds : second = [] ∨ (0 : CHAR16) ∈ second) : ReadOrUnset [first, second] := by
  intro argument member
  rcases List.mem_cons.mp member with rfl | later
  · exact firstEnds
  · rw [List.mem_singleton.mp later]
    exact secondEnds

/-- A line that was read is terminated, or was never written. -/
theorem readLine_ends {fuel maxLength : Nat} (room : 0 < maxLength) (line : Int32 × Memory)
    (returned : Returns (terminalReadLine fw fuel maxLength) line) :
    line.2 = [] ∨ (0 : CHAR16) ∈ line.2 := by
  rcases terminalReadLine_returns fw room line returned with rfl | ⟨typed, _, rfl⟩
  · exact Or.inl rfl
  · exact Or.inr (List.mem_append_right typed List.mem_cons_self)

/-- A hidden line ends like every other line of the editor. -/
theorem readHidden_ends {fuel : Nat} (line : Memory) (returned : Returns (readHidden fw fuel) line) :
    line = [] ∨ (0 : CHAR16) ∈ line := by
  obtain ⟨machine, after, ran⟩ := returned
  obtain ⟨_, silent, _, behind⟩ := (run_bind_ok _ _ _ _).mp ran
  obtain ⟨read, typed, reads, shown⟩ := (run_bind_ok _ _ _ _).mp behind
  obtain ⟨_, _, _, last⟩ := (run_bind_ok _ _ _ _).mp shown
  cases last
  exact readLine_ends (by decide) read ⟨silent, typed, reads⟩

section Interactive

variable (exhausted : reasons .outOfFuel)
include exhausted

/-- A round of the editor is made of quiet steps, and may use up the fuel of its line. -/
theorem composed_nanoRound (fuel lineCount : Nat) :
    Composed fw reasons further (nanoRound fw fuel lineCount) := by
  apply Composed.bind (composed_terminalWrite (Or.inl (constant_ends _)))
  intro _
  apply Composed.sequence (composed_terminalReadLine exhausted fuel (by decide))
  intro line read
  apply Composed.ite (fun _ => Composed.pure _)
  intro stored
  have ends := terminalReadLine_ends (by decide) line read stored
  apply Composed.bind (Composed.orStop fun unread => absurd unread (matchedName_ends ends _))
  intro leaving
  apply Composed.ite (fun _ => Composed.bind (composed_say _) (fun _ => Composed.pure _))
  intro _
  apply Composed.bind
  · exact Composed.orStop fun unread =>
      absurd unread (terminalMatchCommand_ends ends (constant_ends "save"))
  intro saving
  apply Composed.ite (fun _ => Composed.bind (composed_say _) (fun _ => Composed.pure _))
  intro _
  apply Composed.ite (fun _ => Composed.bind (composed_say _) (fun _ => Composed.pure _))
  intro _
  exact Composed.bind (composed_say _) (fun _ => Composed.pure _)

/-- The editor is made of quiet steps, and may use up the fuel of its rounds. -/
theorem composed_terminalRunNano (fuel : Nat) :
    Composed fw reasons further (terminalRunNano fw fuel) := by
  apply Composed.bind (composed_say _)
  intro _
  apply Composed.bind (composed_say _)
  intro _
  exact Composed.iterate exhausted (composed_nanoRound exhausted fuel) fuel 0

/-- Reading a hidden line is made of quiet steps. -/
theorem composed_readHidden (fuel : Nat) : Composed fw reasons further (readHidden fw fuel) := by
  apply Composed.bind (composed_setEcho false)
  intro _
  apply Composed.bind (composed_terminalReadLine exhausted fuel (by decide))
  intro line
  exact Composed.bind (composed_setEcho true) (fun _ => Composed.pure _)

/-- `passwd` is composed of what `accounts_change_password` is composed of, applied to two read
lines. -/
theorem composed_changePassword (fuel : Nat)
    (composed : ∀ old new, ReadOrUnset [old, new] →
      Composed fw reasons further (accountsChangePassword fw old new)) :
    Composed fw reasons further (changePassword fw fuel) := by
  apply Composed.bind (composed_terminalWrite (Or.inl (constant_ends _)))
  intro _
  apply Composed.sequence (composed_readHidden exhausted fuel)
  intro old oldRead
  apply Composed.bind (composed_terminalWrite (Or.inl (constant_ends _)))
  intro _
  apply Composed.sequence (composed_readHidden exhausted fuel)
  intro new newRead
  apply Composed.bind (composed old new
    (readOrUnset_pair (readHidden_ends old oldRead) (readHidden_ends new newRead)))
  intro changed
  exact Composed.ite (fun _ => composed_say _) (fun _ => composed_say _)

/-- `login` is composed of what `accounts_login` is composed of, applied to two read lines. -/
theorem composed_terminalLogin (fuel : Nat)
    (composed : ∀ name password, ReadOrUnset [name, password] →
      Composed fw reasons further (accountsLogin name password)) :
    Composed fw reasons further (terminalLogin fw fuel) := by
  apply Composed.iterate exhausted
  intro _
  apply Composed.bind (composed_terminalWrite (Or.inl (constant_ends _)))
  intro _
  apply Composed.sequence (composed_terminalReadLine exhausted fuel (by decide))
  intro username usernameRead
  apply Composed.ite (fun _ => Composed.pure _)
  intro _
  apply Composed.bind (composed_terminalWrite (Or.inl (constant_ends _)))
  intro _
  apply Composed.sequence (composed_readHidden exhausted fuel)
  intro password passwordRead
  apply Composed.bind (composed username.2 password (readOrUnset_pair
    (readLine_ends (by decide) username usernameRead) (readHidden_ends password passwordRead)))
  intro accepted
  exact Composed.ite (fun _ => Composed.pure _)
    (fun _ => Composed.bind (composed_say _) (fun _ => Composed.pure _))

end Interactive

/-! ## Commands that do more -/

/-- The recorded commands that do more than quiet steps, and the records alone. What holds of
each of these and of quiet steps holds of every run of the interpreter. -/
inductive CommandStep (fw : Firmware σ) : (α : Type) → Routine σ α → Prop where
  | record (name : String) (argv : List Text) : CommandStep fw Unit (record name argv)
  | remove (argv : List Text) : CommandStep fw Bool
    (do record "rm" argv; onFile fw argv (terminalRemoveFile fw) "usage: rm <file>")
  | store (name : String) (member : name ∈ ["write", "append"]) (argv : List Text)
    (nonempty : argv ≠ []) : CommandStep fw Bool (do record name argv; storeWordsOf fw argv)
  | list (name : String) (member : name ∈ ["dir", "ls"]) (argv : List Text) :
    CommandStep fw Bool (do record name argv; listDrive fw argv)
  | directory (argv : List Text) :
    CommandStep fw Bool (do record "cd" argv; changeDirectory fw argv)
  | add (argv : List Text) : CommandStep fw Bool (do record "useradd" argv; addUser fw argv)
  | change (fuel : Nat) (argv : List Text) : CommandStep fw Bool
    (do record "passwd" argv; changePassword fw fuel; return false)
  | login (fuel : Nat) (argv : List Text) : CommandStep fw Bool
    (do record "login" argv; let _ ← terminalLogin fw fuel; return false)

/-- What these commands do apart from quiet steps. Invariants that do not depend on which command
is run are checked for these effects. -/
inductive CommandEffect (fw : Firmware σ) : (α : Type) → Routine σ α → Prop where
  | record (name : String) (argv : List Text) : CommandEffect fw Unit (record name argv)
  | setDrive (drive : CHAR16) : CommandEffect fw Unit
    (modifyTerminal fun terminal => terminalSetDrive drive { terminal with currentDrive := drive })
  | storage {α : Type} {routine : Routine σ α} (named : StorageStep fw α routine) :
    CommandEffect fw α routine

/-- `useradd` is composed of what `accounts_add` is composed of, applied to two words of the
line. -/
theorem composed_addUser (argv : List Text)
    (composed : ∀ name password, ReadOrUnset [name, password] →
      Composed fw reasons further (accountsAdd fw name password)) :
    Composed fw reasons further (addUser fw argv) := by
  apply Composed.ite
  · intro three
    apply Composed.sequence (composed_argument (by omega))
    intro name nameRead
    apply Composed.sequence (composed_argument (by omega))
    intro password passwordRead
    apply Composed.bind (composed name password (readOrUnset_pair
      (Or.inr (argument_ends name nameRead)) (Or.inr (argument_ends password passwordRead))))
    intro added
    exact Composed.ite (fun _ => composed_reply _) (fun _ => composed_reply _)
  · intro _
    exact composed_reply _

section Drives

variable (drives : ∀ drive, further Unit
  (modifyTerminal fun terminal => terminalSetDrive drive { terminal with currentDrive := drive }))
include drives

/-- The drive is changed by a step of its own, behind the parsing of the argument. -/
theorem composed_changeDrive (argv : List Text) :
    Composed fw reasons further (changeDrive argv) := by
  apply Composed.ite
  · intro set
    apply Composed.sequence (composed_argument set)
    intro path read
    apply Composed.bind
    · exact Composed.orStop fun unread =>
        absurd unread (terminalDrivePrefix_ends (argument_ends path read))
    · intro found
      cases found with
      | none => exact Composed.pure false
      | some drive =>
        exact Composed.bind (Composed.further (drives drive))
          (fun _ => Composed.pure true)
  · intro _
    exact Composed.pure false

/-- `dir` and `ls` may change the drive, and may stop where a name of the table has no
terminator. -/
theorem composed_listDrive (field : reasons .fault) (argv : List Text) :
    Composed fw reasons further (listDrive fw argv) := by
  apply Composed.bind (composed_changeDrive drives argv)
  intro _
  apply Composed.view (fun _ _ => rfl)
  intro machine
  exact Composed.bind (composed_terminalShowDriveRoot field _) (fun _ => Composed.pure false)

/-- `cd` may change the drive, and may stop where the path has no terminator. -/
theorem composed_changeDirectory (field : reasons .fault) (argv : List Text) :
    Composed fw reasons further (changeDirectory fw argv) := by
  have shown : Composed fw reasons further (do
      let machine ← get
      terminalWriteFieldLine fw machine.terminal.currentPath.toList
      return false) :=
    Composed.view (fun _ _ => rfl) (fun _ =>
      Composed.bind (composed_terminalWriteFieldLine (Or.inr field)) (fun _ => Composed.pure false))
  apply Composed.bind (composed_changeDrive drives argv)
  intro changed
  apply Composed.ite
  · intro _
    exact Composed.bind (composed_say _) (fun _ => shown)
  · intro _
    exact shown

end Drives

/-- `write` and `append` store their words in a file, so the further steps must contain the
writing of files. -/
theorem composed_storeWordsOf
    (files : ∀ (α : Type) (routine : Routine σ α), FileStep fw α routine → further α routine)
    {argv : List Text} (nonempty : argv ≠ []) :
    Composed fw reasons further (storeWordsOf fw argv) := by
  apply Composed.bind (composed_isCall "append" fun _ => List.length_pos_of_ne_nil nonempty)
  intro append
  apply Composed.ite
  · intro three
    apply Composed.sequence (composed_argument (by omega))
    intro path read
    apply Composed.view (fun _ _ => rfl)
    intro machine
    exact Composed.bind (composed_terminalWriteFile files (Or.inl (tokens_end machine.terminal _))
      (Or.inl (argument_ends path read)) append) (fun done => composed_orUsage done _)
  · intro _
    exact composed_reply _

/-- A command that does more is composed of its effects. -/
theorem composed_commandStep
    (effects : ∀ (α : Type) (routine : Routine σ α), CommandEffect fw α routine →
      further α routine)
    (field : reasons .fault) (exhausted : reasons .outOfFuel) {α : Type}
    {routine : Routine σ α} (named : CommandStep fw α routine) :
    Composed fw reasons further routine := by
  have recorded : ∀ name argv, Composed fw reasons further (record name argv) :=
    fun name argv => Composed.further (effects _ _ (CommandEffect.record name argv))
  have drives : ∀ drive, further Unit (modifyTerminal fun terminal =>
      terminalSetDrive drive { terminal with currentDrive := drive }) :=
    fun drive => effects _ _ (CommandEffect.setDrive drive)
  have storage : ∀ (α : Type) (routine : Routine σ α), StorageStep fw α routine →
      further α routine := fun _ _ named => effects _ _ (CommandEffect.storage named)
  have files : ∀ (α : Type) (routine : Routine σ α), FileStep fw α routine → further α routine :=
    fun _ _ named => storage _ _ (StorageStep.file named)
  cases named with
  | record name argv => exact recorded name argv
  | remove argv =>
    apply Composed.bind (recorded _ argv)
    intro _
    apply composed_onFile
    intro path ends
    exact composed_terminalRemoveFile files (Or.inl ends)
  | store name member argv nonempty =>
    exact Composed.bind (recorded name argv) (fun _ => composed_storeWordsOf files nonempty)
  | list name member argv =>
    exact Composed.bind (recorded name argv) (fun _ => composed_listDrive drives field argv)
  | directory argv =>
    exact Composed.bind (recorded _ argv) (fun _ => composed_changeDirectory drives field argv)
  | add argv =>
    exact Composed.bind (recorded _ argv)
      (fun _ => composed_addUser argv fun _ _ ends => composed_accountsAdd storage (handed field ends))
  | change fuel argv =>
    apply Composed.bind (recorded _ argv)
    intro _
    exact Composed.bind (composed_changePassword exhausted fuel fun _ _ ends =>
      composed_accountsChangePassword storage (handed field ends)) (fun _ => Composed.pure false)
  | login fuel argv =>
    apply Composed.bind (recorded _ argv)
    intro _
    exact Composed.bind (composed_terminalLogin exhausted fuel fun _ _ ends =>
      composed_accountsLogin storage (handed field ends)) (fun _ => Composed.pure false)

/-- Recording a command adds one event, which is no call. -/
theorem emits_record (name : String) (argv : List Text) :
    Keeps (Emits fun _ => True) (record name argv : Routine σ Unit) :=
  keeps_bind keeps_get (fun _ => keeps_modify fun _ => ⟨[_], rfl, fun _ _ => trivial⟩)

/-- What is composed of the effects of commands only extends the trace. -/
theorem emits_composed {α : Type} {routine : Routine σ α}
    (composed : Composed fw (fun _ => True) (CommandEffect fw) routine) :
    Keeps (Emits fun _ => True) routine := by
  have frame : StorageFrame fw (Emits fun _ => True) := storageFrame_emits (fun _ _ => trivial) fw
  apply composed.keeps
  intro α routine named
  cases named with
  | record name argv => exact emits_record name argv
  | setDrive drive => exact TerminalFrame.modifyTerminal _
  | storage named => exact Composed.keepsStorage (Composed.further named)

/-- A call frame that contains every change of the terminal, the records, the updates of the
accounts and the login command contains every command that does more. -/
theorem keeps_commandStep {R : Machine σ → Machine σ → Prop} [CallFrame fw R] [TerminalFrame R]
    (recorded : ∀ name (argv : List Text), Keeps R (record name argv))
    (add : ∀ name password, Keeps R (accountsAdd fw name password))
    (change : ∀ old new, Keeps R (accountsChangePassword fw old new))
    (login : ∀ fuel (argv : List Text),
      Keeps R (do record "login" argv; let _ ← terminalLogin fw fuel; return false))
    (α : Type) (routine : Routine σ α) (named : CommandStep fw α routine) : Keeps R routine := by
  have composes : ∀ {α : Type} {routine : Routine σ α},
      Composed fw (fun _ => True) (fun _ step => Keeps R step) routine → Keeps R routine :=
    fun composed => composed.keeps fun _ _ kept => kept
  have files : ∀ (α : Type) (step : Routine σ α), FileStep fw α step → Keeps R step :=
    fun _ _ named => Composed.keepsFiles (Composed.further named)
  have drives := fun drive : CHAR16 => TerminalFrame.modifyTerminal (R := R)
    fun terminal => terminalSetDrive drive { terminal with currentDrive := drive }
  cases named with
  | record name argv => exact recorded name argv
  | remove argv =>
    exact keeps_bind (recorded _ argv) (fun _ => composes
      (composed_onFile argv _ fun _ ends => composed_terminalRemoveFile files (Or.inl ends)))
  | store name member argv nonempty =>
    exact keeps_bind (recorded name argv) (fun _ => composes (composed_storeWordsOf files nonempty))
  | list name member argv =>
    exact keeps_bind (recorded name argv) (fun _ => composes (composed_listDrive drives trivial argv))
  | directory argv =>
    exact keeps_bind (recorded _ argv)
      (fun _ => composes (composed_changeDirectory drives trivial argv))
  | add argv =>
    exact keeps_bind (recorded _ argv)
      (fun _ => composes (composed_addUser argv fun name password _ =>
        Composed.further (add name password)))
  | change fuel argv =>
    exact keeps_bind (recorded _ argv) (fun _ => keeps_bind
      (composes (composed_changePassword trivial fuel fun old new _ =>
        Composed.further (change old new)))
      (fun _ => keeps_pure false))
  | login fuel argv => exact login fuel argv

/-- If a frame contains every login, it contains the login command. -/
theorem keeps_loginCommand {R : Machine σ → Machine σ → Prop} [QuietFrame fw R]
    (recorded : ∀ name (argv : List Text), Keeps R (record name argv))
    (login : ∀ name password, Keeps R (accountsLogin name password)) (fuel : Nat)
    (argv : List Text) :
    Keeps R (do record "login" argv; let _ ← terminalLogin fw fuel; return false) := by
  have composed : Composed fw (fun _ => True) (fun _ step => Keeps R step) (terminalLogin fw fuel) :=
    composed_terminalLogin trivial fuel fun name password _ => Composed.further (login name password)
  exact keeps_bind (recorded _ argv) (fun _ =>
    keeps_bind (composed.keeps fun _ _ kept => kept) (fun _ => keeps_pure false))

/-- A recorded command keeps a relation under a condition on the events if its runs whose
events, the record included, meet the condition are related. -/
theorem keeps_recorded {R : Machine σ → Machine σ → Prop} {condition : List Event → Prop}
    {name : String} {argv : List Text} {run : Routine σ Bool}
    (traced : Keeps (Emits fun _ => True) run)
    (related : ∀ machine result after events,
      run.run { machine with
        trace := machine.trace ++ [.command (text name) (wordsOf machine.terminal argv)] } =
        .ok (result, after) →
      after.trace = machine.trace ++ .command (text name) (wordsOf machine.terminal argv) :: events →
      condition (.command (text name) (wordsOf machine.terminal argv) :: events) →
      R machine after) :
    Keeps (Provided condition R) (do record name argv; run) := by
  constructor
  intro machine result after ran
  obtain ⟨_, middle, recorded, behind⟩ := (run_bind_ok _ _ _ _).mp ran
  cases recorded
  obtain ⟨events, extended, _⟩ := traced.related _ result after behind
  rw [List.append_assoc] at extended
  exact ⟨_, extended, related machine result after events behind extended⟩

/-! ## The table -/

/-- Every command of a table is composed together with its record. Their records come first, so a
frame may look at the name. -/
def Recorded (fw : Firmware σ) (reasons : Stop → Prop)
    (further : (α : Type) → Routine σ α → Prop) (argv : List Text)
    (table : List (List String × Routine σ Bool)) : Prop :=
  ∀ row ∈ table, ∀ name ∈ row.1, Composed fw reasons further (do record name argv; row.2)

/-- A table is taken row by row. -/
theorem recorded_cons {argv : List Text} {names : List String} {run : Routine σ Bool}
    {table : List (List String × Routine σ Bool)}
    (first : ∀ name ∈ names, Composed fw reasons further (do record name argv; run))
    (rest : Recorded fw reasons further argv table) :
    Recorded fw reasons further argv ((names, run) :: table) := by
  intro row member
  rcases List.mem_cons.mp member with rfl | later
  · exact first
  · exact rest row later

/-- A row with one name. -/
theorem recorded_one {argv : List Text} {only : String} {run : Routine σ Bool}
    (composed : Composed fw reasons further (do record only argv; run)) :
    ∀ name ∈ [only], Composed fw reasons further (do record name argv; run) := by
  intro name member
  rw [List.mem_singleton.mp member]
  exact composed

section Table

variable (steps : ∀ (α : Type) (routine : Routine σ α), CommandStep fw α routine →
  further α routine)
  (within : ReportsWithin fw ∨ reasons .overrun) (field : reasons .fault)
  (exhausted : reasons .outOfFuel)
include steps within field exhausted

/-- The rows are those of the table, in its order. -/
theorem composed_commands {script : Memory → Routine σ Bool}
    (inner : ∀ line : Text, Composed fw reasons further (script (line ++ [0]))) (fuel : Nat)
    {argv : List Text} (nonempty : argv ≠ []) {args : Memory} (ends : (0 : CHAR16) ∈ args) :
    Recorded fw reasons further argv (commands fw script fuel argv args) := by
  have quiet : ∀ {names : List String} {run : Routine σ Bool}, Composed fw reasons further run →
      ∀ name ∈ names, Composed fw reasons further (do record name argv; run) :=
    fun run name _ =>
      Composed.bind (Composed.further (steps _ _ (CommandStep.record name argv))) (fun _ => run)
  have named : ∀ {run : Routine σ Bool}, CommandStep fw Bool run →
      Composed fw reasons further run := fun step => Composed.further (steps _ _ step)
  unfold commands
  apply recorded_cons (quiet <| composed_switchEcho argv)
  apply recorded_cons (quiet <| Composed.pure false)
  apply recorded_cons (quiet <| composed_switchLanguage argv)
  apply recorded_cons (quiet <| composed_reply _)
  apply recorded_cons (quiet <| Composed.bind (composed_terminalWriteArgList _ _)
    (fun _ => composed_reply _))
  apply recorded_cons (quiet <| Composed.bind (composed_terminalRunNano exhausted fuel)
    (fun _ => Composed.pure false))
  iterate 2 apply recorded_cons (quiet <| composed_reply _)
  apply recorded_cons (quiet <| composed_onFile argv _
    fun path pathEnds => composed_terminalCatFile within exhausted fuel (Or.inl pathEnds))
  apply recorded_cons (quiet <| composed_onFile argv _
    fun path pathEnds => composed_terminalTouchFile (Or.inl pathEnds))
  apply recorded_cons (recorded_one (named (CommandStep.remove argv)))
  apply recorded_cons (fun name member => named (CommandStep.store name member argv nonempty))
  apply recorded_cons (quiet <| composed_onFile argv _
    fun path pathEnds => composed_terminalSourceFile inner within (Or.inl pathEnds))
  iterate 3 apply recorded_cons (quiet <| composed_reply _)
  apply recorded_cons (quiet <| Composed.bind (composed_terminalWriteLine (Or.inl ends))
    (fun _ => Composed.pure false))
  apply recorded_cons (quiet <| composed_reply _)
  apply recorded_cons (fun name member => named (CommandStep.list name member argv))
  apply recorded_cons (quiet <| composed_reply _)
  apply recorded_cons (quiet <| Composed.bind (composed_say _)
    (fun _ => Composed.bind (composed_say _) (fun _ => composed_reply _)))
  apply recorded_cons (quiet <| composed_reply _)
  apply recorded_cons (quiet <| Composed.bind (composed_say _) (fun _ => Composed.pure true))
  iterate 5 apply recorded_cons (quiet <| composed_reply _)
  apply recorded_cons (recorded_one (named (CommandStep.directory argv)))
  iterate 6 apply recorded_cons (quiet <| composed_reply _)
  apply recorded_cons (quiet <| composed_showUser field)
  apply recorded_cons (quiet <| composed_grepWords argv)
  apply recorded_cons (quiet <| composed_showUsers field)
  apply recorded_cons (recorded_one (named (CommandStep.add argv)))
  apply recorded_cons (recorded_one (named (CommandStep.change fuel argv)))
  apply recorded_cons (recorded_one (named (CommandStep.login fuel argv)))
  apply recorded_cons (quiet <| composed_reply _)
  apply recorded_cons (quiet <| Composed.bind (composed_setMode .bash) (fun _ => composed_reply _))
  apply recorded_cons (quiet <| Composed.bind (composed_setMode .batch) (fun _ => composed_reply _))
  intro row member
  exact absurd member List.not_mem_nil

end Table

/-! ## The interpreter -/

/-- Running a command of a table, by induction over its rows. -/
theorem composed_dispatch (argv : List Text) {word : Memory} (ends : (0 : CHAR16) ∈ word)
    (table : List (List String × Routine σ Bool)) (recorded : Recorded fw reasons further argv table) :
    Composed fw reasons further (dispatch fw argv word table) := by
  induction table with
  | nil => exact composed_reply _
  | cons row rest ih =>
    apply Composed.orStop_bind
    · exact fun unread => absurd unread (matchedName_ends ends row.1)
    · intro found isMatch
      cases found with
      | some name => exact recorded row List.mem_cons_self name (matchedName_mem isMatch)
      | none => exact ih fun later member => recorded later (List.mem_cons_of_mem row member)

/-- A line is composed of what is called for it. -/
theorem composed_executeLine {execute : Memory → Routine σ Bool}
    {table : List Text → Memory → List (List String × Routine σ Bool)}
    (inner : ∀ line : Text, Composed fw reasons further (execute (line ++ [0])))
    (recorded : ∀ argv args, argv ≠ [] → (0 : CHAR16) ∈ args →
      Recorded fw reasons further argv (table argv args))
    {command : Memory} (ends : (0 : CHAR16) ∈ command ∨ reasons .overrun) :
    Composed fw reasons further (executeLine fw parseFresh execute table command) := by
  apply Composed.bind (composed_parseFresh ends terminalMaxArgs)
  intro argv
  apply Composed.orStop_bind
  · intro unread
    refine ends.elim (fun ends => ?_) Or.inr
    obtain ⟨args, found, _⟩ := terminalCommandArgs_ends ends
    rw [found] at unread
    cases unread
  intro args found
  apply Composed.orStop_bind
  · exact fun unread => ends.elim (fun ends => absurd unread (scan_ends ends)) Or.inr
  intro line readable
  have commandEnds : (0 : CHAR16) ∈ command :=
    (scan_isSome command).mp (Option.isSome_iff_exists.mpr ⟨line, readable⟩)
  have argsEnd : (0 : CHAR16) ∈ args := by
    obtain ⟨same, taken, takenEnd⟩ := terminalCommandArgs_ends commandEnds
    exact Option.some.inj (taken.symm.trans found) ▸ takenEnd
  apply Composed.ite
  · intro _
    exact Composed.bind (inner _) (fun _ => inner _)
  · intro _
    apply Composed.bind (composed_terminalTryPipeline line)
    intro piped
    apply Composed.ite (fun _ => Composed.pure false)
    intro _
    apply Composed.ite (fun _ => Composed.pure false)
    intro some
    have nonempty : argv ≠ [] := fun none => some (none ▸ rfl)
    apply Composed.sequence (composed_argument (List.length_pos_of_ne_nil nonempty))
    intro word read
    exact composed_dispatch argv (argument_ends word read) _ (recorded argv args nonempty argsEnd)

/-- The interpreter is composed of quiet steps and of the commands that do more.

Induct over the nesting. -/
theorem composed_interpret
    (steps : ∀ (α : Type) (routine : Routine σ α), CommandStep fw α routine → further α routine)
    (within : ReportsWithin fw ∨ reasons .overrun) (field : reasons .fault)
    (exhausted : reasons .outOfFuel) (fuel : Nat) {command : Memory}
    (ends : (0 : CHAR16) ∈ command ∨ reasons .overrun) :
    Composed fw reasons further (interpret fw parseFresh fuel command) := by
  induction fuel generalizing command with
  | zero => exact Composed.throw .outOfFuel (Or.inr exhausted)
  | succ fuel ih =>
    have inner : ∀ line : Text,
        Composed fw reasons further (interpret fw parseFresh fuel (line ++ [0])) :=
      fun line => ih (Or.inl (List.mem_append_right line List.mem_cons_self))
    exact composed_executeLine inner (fun argv args nonempty argsEnd =>
      composed_commands steps within field exhausted inner fuel nonempty argsEnd) ends

/-- A quiet frame that the commands that do more keep is kept by the interpreter. -/
theorem keeps_interpret {R : Machine σ → Machine σ → Prop} [QuietFrame fw R]
    (kept : ∀ (α : Type) (routine : Routine σ α), CommandStep fw α routine → Keeps R routine)
    (fuel : Nat) (command : Memory) : Keeps R (interpret fw parseFresh fuel command) := by
  have composed : Composed fw (fun _ => True) (CommandStep fw) (interpret fw parseFresh fuel command) :=
    composed_interpret (fun _ _ named => named) (Or.inr trivial) trivial trivial fuel
      (Or.inr trivial)
  exact composed.keeps kept

end ExistentOS.Terminal
