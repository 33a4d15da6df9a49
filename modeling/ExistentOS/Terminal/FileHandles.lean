import ExistentOS.Handles
import ExistentOS.Terminal.Interpreter

/-!
# File handles of the terminal

The file commands close what they open, and a script is closed before its first line is run. The
other commands open no files of their own, so the whole interpreter closes what it opens.
-/

namespace ExistentOS.Terminal

open Programs Terminated Custody Accounts Eosfs Boot

variable {σ α : Type} (fw : Firmware σ)

/-! ## The console -/

/-- Printing calls the console alone. -/
theorem tidy_terminalPut (beyond : Stop) (memory : Memory) : Tidy (terminalPut fw beyond memory) := by
  apply Book.passes_view
  intro machine
  apply Book.passes_ite
  · intro _
    apply handles_after (tidy_orStop beyond (scan memory))
    intro shown
    exact handles_after (tidy_outputString fw shown) fun _ => Book.passes_keep
  · intro _
    exact Book.passes_keep

/-- Writing a terminated string calls the console alone. -/
theorem tidy_terminalWrite (memory : Memory) : Tidy (terminalWrite fw memory) :=
  tidy_terminalPut fw .overrun memory

/-- A field is printed by the console alone. -/
theorem tidy_terminalWriteField (memory : Memory) : Tidy (terminalWriteField fw memory) :=
  tidy_terminalPut fw .fault memory

/-- A line is printed by the console alone. -/
theorem tidy_terminalWriteLine (memory : Memory) : Tidy (terminalWriteLine fw memory) :=
  handles_after (tidy_terminalWrite fw memory) fun _ => tidy_terminalWrite fw _

/-- A field on its own line is printed by the console alone. -/
theorem tidy_terminalWriteFieldLine (memory : Memory) : Tidy (terminalWriteFieldLine fw memory) :=
  handles_after (tidy_terminalWriteField fw memory) fun _ => tidy_terminalWrite fw _

/-- A constant line is printed by the console alone. -/
theorem tidy_say (message : String) : Tidy (say fw message) := tidy_terminalWriteLine fw _

/-- A reply prints and reports that the command was known. -/
theorem tidy_reply (message : String) : Tidy (reply fw message) :=
  handles_after (tidy_say fw message) fun _ => Book.passes_keep

/-- A command prints its usage where it was called wrongly. Neither way opens a file. -/
theorem tidy_orUsage (done : Bool) (usage : String) : Tidy (orUsage fw done usage) :=
  Book.passes_ite (fun _ => Book.passes_keep) fun _ => tidy_reply fw usage

/-- One round of the line editor polls the keyboard and echoes. Each key has its own branch, and
none of them opens a file. -/
theorem tidy_readLineRound (maxLength : Nat) (current : Option CHAR16 × Text) :
    Tidy (readLineRound fw maxLength current) := by
  apply Book.passes_view
  intro machine
  apply Book.passes_ite
  · intro _
    apply handles_after (tidy_readKeyStroke fw)
    intro stroke
    apply handles_after (tidy_orStop .unset _)
    intro unit
    apply Book.passes_ite (fun _ => Book.passes_keep)
    intro _
    apply Book.passes_ite
    · intro _
      apply handles_after (tidy_terminalWrite fw _)
      intro _
      exact handles_after (tidy_orOverrun _) fun _ => Book.passes_keep
    · intro _
      apply Book.passes_ite
      · intro _
        apply Book.passes_ite
        · intro _
          exact handles_after (tidy_terminalWrite fw _) fun _ => Book.passes_keep
        · intro _
          exact Book.passes_keep
      · intro _
        apply Book.passes_ite (fun _ => Book.passes_keep)
        intro _
        have stored : Tidy (do
            let grown ← orOverrun (push maxLength current.2 unit)
            return .inl (some unit, grown) :
              Routine σ ((Option CHAR16 × Text) ⊕ (Int32 × Memory))) :=
          handles_after (tidy_orOverrun _) fun _ => Book.passes_keep
        apply Book.passes_ite
        · intro _
          exact handles_after (tidy_terminalWrite fw _) fun _ => stored
        · intro _
          exact stored
  · intro _
    exact Book.passes_keep

/-- A loop whose rounds close what they open. -/
theorem tidy_iterate {β : Type} {body : β → Routine σ (β ⊕ α)} (round : ∀ current, Tidy (body current))
    (fuel : Nat) (current : β) : Tidy (iterate .outOfFuel body fuel current) := by
  apply Book.passes_iterate
  intro current
  apply (round current).mono
  rintro (next | result) <;> rfl

/-- The line editor opens no file, however many rounds the user makes it run. -/
theorem tidy_terminalReadLine (fuel maxLength : Nat) : Tidy (terminalReadLine fw fuel maxLength) :=
  tidy_iterate (tidy_readLineRound fw maxLength) fuel _

/-! ## File commands -/

/-- The last round of `cat` closes its file. -/
theorem handles_catRound (file : Handle) (buffer : List UInt8) :
    Handles {file} (catRound fw file buffer) fun outcome =>
      outcome.elim (fun _ => {file}) fun _ => 0 := by
  apply Book.passes_bind (handles_readFile fw file catBufferSize)
  intro answer
  apply Book.passes_ite
  · intro _
    exact Book.passes_bind (handles_closeFile fw file) fun _ => Book.passes_pure rfl
  · intro _
    apply handles_after (tidy_orStop _ _)
    intro bytes
    apply handles_after
    · exact Book.passes_ite (fun _ => tidy_terminalWrite fw _) fun _ => Book.passes_keep
    intro _
    apply Book.passes_ite
    · intro _
      exact Book.passes_pure rfl
    · intro _
      apply Book.passes_bind (handles_closeFile fw file)
      intro _
      exact handles_after (tidy_terminalWriteLine fw _) fun _ => Book.passes_pure rfl

/-- `terminal_cat_file` closes what it opens. -/
theorem tidy_terminalCatFile (fuel : Nat) (path : Memory) : Tidy (terminalCatFile fw fuel path) :=
  tidy_opened fw Book.passes_keep fun file =>
    Book.passes_iterate Stop.outOfFuel (handles_catRound fw file) fuel []

/-- `terminal_touch_file` closes what it opens. -/
theorem tidy_terminalTouchFile (path : Memory) : Tidy (terminalTouchFile fw path) :=
  tidy_opened fw Book.passes_keep fun _ => handles_closing fw

/-- `terminal_remove_file` closes what it opens: deleting a file closes it. -/
theorem tidy_terminalRemoveFile (path : Memory) : Tidy (terminalRemoveFile fw path) :=
  tidy_opened fw Book.passes_keep fun file =>
    Book.passes_bind (handles_deleteFile fw file) fun _ => Book.passes_keep

/-- Storing words in an open file closes it, whether the write succeeded or not. -/
theorem handles_storeHere (file : Handle) (stored : List Memory) :
    Handles {file} (storeHere fw file stored) fun _ => 0 := by
  apply handles_after (tidy_orOverrun _)
  intro bytes
  apply handles_after (tidy_orOverrun _)
  intro line
  apply Book.passes_bind (handles_writeFile fw file line)
  intro written
  apply Book.passes_ite (fun _ => handles_closing fw)
  intro _
  exact Book.passes_bind (handles_flushFile fw file) fun _ => handles_closing fw

/-- `terminal_write_file` closes what it opens. -/
theorem tidy_terminalWriteFile (path : Memory) (stored : List Memory) (append : Bool) :
    Tidy (terminalWriteFile fw path stored append) := by
  refine tidy_opened fw Book.passes_keep fun file => ?_
  apply Book.passes_bind (handles_setPosition fw file _)
  intro positioned
  exact Book.passes_ite (fun _ => handles_closing fw) fun _ => handles_storeHere fw file stored

/-! ## Scripts -/

/-- The part of `terminal_source_file` in front of the loop over the bytes of the script. -/
def readScript (path : Memory) : Routine σ (Option (List UInt8)) := do
  match ← terminalOpenFile fw path efiFileModeRead 0 with
  | none => return none
  | some file =>
    let answer ← readFile fw file (scriptBufferSize - 1)
    let _ ← closeFile fw file
    if efiError answer.status then return none
    else
      let bytes ← orStop (behindStored scriptBufferSize answer.size)
        (reported answer.bytes answer.size)
      return some bytes

/-- The rest of `terminal_source_file`: the lines of the script, if there is one. -/
def runScript (execute : Memory → Routine σ Bool) : Option (List UInt8) → Routine σ Bool
  | none => return false
  | some bytes => do
    runLines execute [] bytes
    return true

/-- A script is read and closed before its lines are run. -/
theorem terminalSourceFile_eq (execute : Memory → Routine σ Bool) (path : Memory) :
    terminalSourceFile fw execute path = (do
      let script ← readScript fw path
      runScript execute script) := by
  rw [terminalSourceFile, readScript, bind_assoc]
  congr
  funext opened
  cases opened with
  | none => rfl
  | some file =>
    simp only [bind_assoc]
    congr
    funext answer
    congr
    funext _
    split <;> simp [runScript]

/-- Reading a script closes what it has opened: the root alone where the file is missing, both
where it was read, whatever the read answered. -/
theorem tidy_readScript (path : Memory) : Tidy (readScript fw path) := by
  refine tidy_opened fw Book.passes_keep fun file => ?_
  apply Book.passes_bind (handles_readFile fw file _)
  intro answer
  apply Book.passes_bind (handles_closeFile fw file)
  intro _
  apply Book.passes_ite (fun _ => Book.passes_keep)
  intro _
  exact handles_after (tidy_orStop _ _) fun _ => Book.passes_keep

/-- The lines of a script close what they open, if each command does. -/
theorem tidy_runLines {execute : Memory → Routine σ Bool} (each : ∀ command, Tidy (execute command))
    (line : Text) (bytes : List UInt8) : Tidy (runLines execute line bytes) := by
  induction bytes generalizing line with
  | nil =>
    apply Book.passes_ite
    · intro _
      apply handles_after (tidy_orOverrun _)
      intro command
      exact handles_after (each command) fun _ => Book.passes_keep
    · intro _
      exact Book.passes_keep
  | cons byte rest ih =>
    apply Book.passes_ite (fun _ => ih line)
    intro _
    apply Book.passes_ite
    · intro _
      apply handles_after (tidy_orOverrun _)
      intro command
      exact Book.passes_ite (fun _ => handles_after (each command) fun _ => ih []) fun _ => ih []
    · intro _
      apply Book.passes_ite
      · intro _
        exact handles_after (tidy_orOverrun _) fun grown => ih grown
      · intro _
        exact ih line

/-- `terminal_source_file` closes what it opens, if its commands do. -/
theorem tidy_terminalSourceFile {execute : Memory → Routine σ Bool}
    (each : ∀ command, Tidy (execute command)) (path : Memory) :
    Tidy (terminalSourceFile fw execute path) := by
  rw [terminalSourceFile_eq]
  apply handles_after (tidy_readScript fw path)
  intro script
  cases script with
  | none => exact Book.passes_keep
  | some bytes => exact handles_after (tidy_runLines each [] bytes) fun _ => Book.passes_keep

/-! ## Dialogues -/

/-- A round of the editor reads one line and answers it. It opens no file, not even to answer
`save`. -/
theorem tidy_nanoRound (fuel lineCount : Nat) : Tidy (nanoRound fw fuel lineCount) := by
  apply handles_after (tidy_terminalWrite fw _)
  intro _
  apply handles_after (tidy_terminalReadLine fw fuel _)
  intro line
  apply Book.passes_ite (fun _ => Book.passes_keep)
  intro _
  have answered : ∀ {β : Type} (message : String) (value : β),
      Tidy (do say fw message; return value) := fun message _ =>
    handles_after (tidy_say fw message) fun _ => Book.passes_keep
  apply handles_after (tidy_orOverrun _)
  intro leaves
  apply Book.passes_ite (fun _ => answered _ _)
  intro _
  apply handles_after (tidy_orOverrun _)
  intro saves
  apply Book.passes_ite (fun _ => answered _ _)
  intro _
  exact Book.passes_ite (fun _ => answered _ _) fun _ => answered _ _

/-- The editor opens no file, however many lines it is given. -/
theorem tidy_terminalRunNano (fuel : Nat) : Tidy (terminalRunNano fw fuel) := by
  apply handles_after (tidy_say fw _)
  intro _
  apply handles_after (tidy_say fw _)
  exact fun _ => tidy_iterate (tidy_nanoRound fw fuel) fuel 0

/-- Switching the echo changes a variable. -/
theorem tidy_setEcho (enabled : Bool) : Tidy (setEcho enabled : Routine σ Unit) :=
  tidy_modifyTerminal _

/-- A hidden line is read like every other, with the echo switched off around it. -/
theorem tidy_readHidden (fuel : Nat) : Tidy (readHidden fw fuel) := by
  apply handles_after (tidy_setEcho false)
  intro _
  apply handles_after (tidy_terminalReadLine fw fuel _)
  intro line
  exact handles_after (tidy_setEcho true) fun _ => Book.passes_keep

/-- Logging in compares stored passwords and calls no firmware. -/
theorem tidy_accountsLogin (name password : Memory) :
    Tidy (accountsLogin name password : Routine σ Bool) := by
  apply Book.passes_view
  intro machine
  apply handles_after (tidy_orStop _ _)
  intro found
  cases found with
  | none => exact Book.passes_keep
  | some index => exact handles_after (tidy_modifyAccounts _) fun _ => Book.passes_keep

/-- A round of the login asks for a name and a password. Neither prompt opens a file. -/
theorem tidy_loginRound (fuel : Nat) (current : Unit) : Tidy (loginRound fw fuel current) := by
  apply handles_after (tidy_terminalWrite fw _)
  intro _
  apply handles_after (tidy_terminalReadLine fw fuel _)
  intro username
  apply Book.passes_ite (fun _ => Book.passes_keep)
  intro _
  apply handles_after (tidy_terminalWrite fw _)
  intro _
  apply handles_after (tidy_readHidden fw fuel)
  intro password
  apply handles_after (tidy_accountsLogin username.2 password)
  intro accepted
  apply Book.passes_ite (fun _ => Book.passes_keep)
  exact fun _ => handles_after (tidy_say fw _) fun _ => Book.passes_keep

/-- Logging in opens no file, after any number of failed rounds. -/
theorem tidy_terminalLogin (fuel : Nat) : Tidy (terminalLogin fw fuel) :=
  tidy_iterate (tidy_loginRound fw fuel) fuel ()

/-- A change of the accounts that is saved. -/
theorem tidy_saved (update : AccountStorage → AccountStorage) : Tidy (do
    modifyAccounts update
    accountsSave fw) := handles_after (tidy_modifyAccounts update) fun _ => tidy_accountsSave fw

/-- Adding an account saves the table, and the save closes what it opens also where it fails. -/
theorem tidy_accountsAdd (name password : Memory) : Tidy (accountsAdd fw name password) := by
  apply Book.passes_view
  intro machine
  apply handles_after (tidy_orStop _ _)
  intro admitted
  apply Book.passes_ite
  · intro _
    exact handles_after (tidy_orStop _ _) fun changed => tidy_saved fw fun _ => changed
  · intro _
    exact Book.passes_keep

/-- Changing a password saves the table, and the save closes what it opens also where it fails. -/
theorem tidy_accountsChangePassword (old new : Memory) :
    Tidy (accountsChangePassword fw old new) := by
  apply Book.passes_view
  intro machine
  apply handles_after (tidy_orStop _ _)
  intro admitted
  apply Book.passes_ite
  · intro _
    exact handles_after (tidy_orStop _ _) fun updated => tidy_saved fw fun _ => updated
  · intro _
    exact Book.passes_keep

/-- The command reads two hidden lines before it changes the password. -/
theorem tidy_changePassword (fuel : Nat) : Tidy (changePassword fw fuel) := by
  apply handles_after (tidy_terminalWrite fw _)
  intro _
  apply handles_after (tidy_readHidden fw fuel)
  intro old
  apply handles_after (tidy_terminalWrite fw _)
  intro _
  apply handles_after (tidy_readHidden fw fuel)
  intro new
  apply handles_after (tidy_accountsChangePassword fw old new)
  intro changed
  exact Book.passes_ite (fun _ => tidy_say fw _) fun _ => tidy_say fw _

/-! ## Commands -/

section Commands

variable [Word α] (argv : List α)

/-- Looking up an argument reads the words of the command. -/
theorem tidy_argument (index : Nat) : Tidy (argument argv index : Routine σ Memory) := by
  apply handles_after (tidy_orOverrun _)
  exact fun _ => Book.passes_view fun _ => Book.passes_keep

/-- Recognising a command compares its first word. -/
theorem tidy_isCall (admissible : Bool) (name : String) :
    Tidy (isCall admissible argv name : Routine σ Bool) := by
  apply Book.passes_ite
  · intro _
    exact handles_after (tidy_argument argv 0) fun word => tidy_orOverrun _
  · intro _
    exact Book.passes_keep

/-- Comparing an argument opens nothing. -/
theorem tidy_firstArgumentIs (name : String) :
    Tidy (firstArgumentIs argv name : Routine σ Bool) := by
  apply Book.passes_ite
  · intro _
    exact handles_after (tidy_argument argv 1) fun word => tidy_orOverrun _
  · intro _
    exact Book.passes_keep

/-- The words of an argument list are printed one by one. -/
theorem tidy_terminalWriteArgList (separate : Bool) :
    Tidy (terminalWriteArgList fw separate argv) := by
  induction argv generalizing separate with
  | nil => exact Book.passes_keep
  | cons entry rest ih =>
    have written : Tidy (do
        let machine ← get
        terminalWrite fw (Word.memory machine.terminal entry)
        terminalWriteArgList fw true rest) :=
      Book.passes_view fun _ => handles_after (tidy_terminalWrite fw _) fun _ => ih true
    apply Book.passes_ite
    · intro _
      exact handles_after (tidy_terminalWrite fw _) fun _ => written
    · intro _
      exact written

/-- A pipeline parses both sides and prints. Neither side is executed as a command, so neither
opens a file. -/
theorem tidy_terminalTryPipeline {parse : Memory → Nat → Routine σ (List α)}
    (parses : ∀ command maxArgs, Tidy (parse command maxArgs)) (line : Text) :
    Tidy (terminalTryPipeline fw parse line) := by
  have refused : ∀ message : String, Tidy (do say fw message; return true) := fun message =>
    handles_after (tidy_say fw message) fun _ => Book.passes_keep
  apply Book.passes_ite
  · intro _
    apply handles_after (parses _ _)
    intro left
    apply handles_after (tidy_isCall left _ _)
    intro echoes
    apply Book.passes_ite
    · intro _
      apply handles_after (parses _ _)
      intro right
      apply handles_after (tidy_isCall right _ _)
      intro greps
      apply Book.passes_ite
      · intro _
        apply handles_after (tidy_orOverrun _)
        intro shown
        apply handles_after (tidy_argument right 1)
        intro needle
        apply handles_after (tidy_orOverrun _)
        intro found
        apply Book.passes_ite
        · intro _
          exact handles_after (tidy_terminalWriteLine fw _) fun _ => Book.passes_keep
        · intro _
          exact Book.passes_keep
      · exact fun _ => refused _
    · exact fun _ => refused _
  · intro _
    exact Book.passes_keep

/-- `@echo` compares its argument and changes a variable. -/
theorem tidy_switchEcho : Tidy (switchEcho argv : Routine σ Bool) := by
  apply handles_after (tidy_firstArgumentIs argv _)
  intro off
  apply Book.passes_ite
  · intro _
    exact handles_after (tidy_setEcho false) fun _ => Book.passes_keep
  · intro _
    apply handles_after (tidy_firstArgumentIs argv _)
    intro on
    apply Book.passes_ite
    · intro _
      exact handles_after (tidy_setEcho true) fun _ => Book.passes_keep
    · intro _
      exact Book.passes_keep

/-- Setting the mode changes a variable. -/
theorem tidy_setMode (mode : TerminalMode) : Tidy (setMode mode : Routine σ Unit) :=
  tidy_modifyTerminal _

/-- A change of the mode that is answered. -/
theorem tidy_modeSet (mode : TerminalMode) (message : String) :
    Tidy (do setMode mode; reply fw message) :=
  handles_after (tidy_setMode mode) fun _ => tidy_reply fw message

/-- `switchlang` changes a variable and prints. -/
theorem tidy_switchLanguage : Tidy (switchLanguage fw argv) := by
  apply handles_after (tidy_firstArgumentIs argv _)
  intro bash
  apply Book.passes_ite (fun _ => tidy_modeSet fw _ _)
  intro _
  apply handles_after (tidy_firstArgumentIs argv _)
  intro batch
  exact Book.passes_ite (fun _ => tidy_modeSet fw _ _) fun _ => tidy_reply fw _

/-- Changing the drive stores the letter and never asks the firmware whether the drive is there. -/
theorem tidy_changeDrive : Tidy (changeDrive argv : Routine σ Bool) := by
  apply Book.passes_ite
  · intro _
    apply handles_after (tidy_argument argv 1)
    intro path
    apply handles_after (tidy_orOverrun _)
    intro drive
    cases drive with
    | none => exact Book.passes_keep
    | some letter => exact handles_after (tidy_modifyTerminal _) fun _ => Book.passes_keep
  · intro _
    exact Book.passes_keep

/-- Entries are printed from memory. The directory was closed before. -/
theorem tidy_showEntries (entries : List ListedEntry) : Tidy (showEntries fw entries) := by
  induction entries with
  | nil => exact Book.passes_keep
  | cons entry rest ih =>
    apply handles_after (tidy_terminalWriteField fw _)
    intro _
    apply handles_after (tidy_terminalWrite fw _)
    intro _
    apply handles_after (tidy_terminalWrite fw _)
    intro _
    exact handles_after (tidy_terminalWriteLine fw _) fun _ => ih

/-- Showing a drive reads the entries first, and that routine closes the root. -/
theorem tidy_terminalShowDriveRoot (drive : CHAR16) : Tidy (terminalShowDriveRoot fw drive) := by
  apply handles_after (tidy_eosfsListPath fw _)
  intro listed
  cases listed with
  | none => exact tidy_say fw _
  | some entries => exact handles_after (tidy_say fw _) fun _ => tidy_showEntries fw entries

/-- `dir` and `ls` close what reading the entries has opened. -/
theorem tidy_listDrive : Tidy (listDrive fw argv) := by
  apply handles_after (tidy_changeDrive argv)
  intro _
  apply Book.passes_view
  intro machine
  exact handles_after (tidy_terminalShowDriveRoot fw _) fun _ => Book.passes_keep

/-- `cd` stores the letter and prints the current path. It opens no directory. -/
theorem tidy_changeDirectory : Tidy (changeDirectory fw argv) := by
  have shown : Tidy (do
      let machine ← get
      terminalWriteFieldLine fw machine.terminal.currentPath.toList
      return false) :=
    Book.passes_view fun _ => handles_after (tidy_terminalWriteFieldLine fw _) fun _ =>
      Book.passes_keep
  apply handles_after (tidy_changeDrive argv)
  intro changed
  apply Book.passes_ite
  · intro _
    exact handles_after (tidy_say fw _) fun _ => shown
  · intro _
    exact shown

/-- A command on a file is tidy where the command is tidy on every path. -/
theorem tidy_onFile {command : Memory → Routine σ Bool} (each : ∀ path, Tidy (command path))
    (usage : String) : Tidy (onFile fw argv command usage) := by
  apply Book.passes_ite
  · intro _
    apply handles_after (tidy_argument argv 1)
    intro path
    exact handles_after (each path) fun done => tidy_orUsage fw done usage
  · intro _
    exact tidy_reply fw usage

/-- `write` and `append` close the file they store their words in. -/
theorem tidy_storeWordsOf : Tidy (storeWordsOf fw argv) := by
  apply handles_after (tidy_isCall argv _ _)
  intro append
  apply Book.passes_ite
  · intro _
    apply handles_after (tidy_argument argv 1)
    intro path
    apply Book.passes_view
    intro machine
    apply handles_after (tidy_terminalWriteFile fw path _ append)
    exact fun done => tidy_orUsage fw done _
  · intro _
    exact tidy_reply fw _

/-- The matching words are printed from the command line itself. -/
theorem tidy_showMatching (needle : Memory) (words : List Memory) :
    Tidy (showMatching fw needle words) := by
  induction words with
  | nil => exact Book.passes_keep
  | cons word rest ih =>
    apply handles_after (tidy_orOverrun _)
    intro found
    apply Book.passes_ite
    · intro _
      exact handles_after (tidy_terminalWriteLine fw word) fun _ => ih
    · intro _
      exact ih

/-- `grep` searches the words of its own line and reads no file. -/
theorem tidy_grepWords : Tidy (grepWords fw argv) := by
  apply Book.passes_ite (fun _ => tidy_reply fw _)
  intro _
  apply handles_after (tidy_argument argv 1)
  intro needle
  apply Book.passes_view
  intro machine
  exact handles_after (tidy_showMatching fw needle _) fun _ => Book.passes_keep

/-- `whoami` reads the table in memory. -/
theorem tidy_showUser : Tidy (showUser fw) := by
  apply Book.passes_view
  intro machine
  apply handles_after (tidy_orFault _)
  intro name
  exact handles_after (tidy_terminalWriteFieldLine fw name) fun _ => Book.passes_keep

/-- `users` reads the table in memory. -/
theorem tidy_showUsers : Tidy (showUsers fw) := by
  apply Book.passes_view
  intro machine
  have each : ∀ index, Tidy (do
      terminalWriteFieldLine fw (← orFault (accountsUserAt machine.accounts index))) := fun index =>
    handles_after (tidy_orFault _) fun name => tidy_terminalWriteFieldLine fw name
  exact handles_after (Book.passes_forM each) fun _ => Book.passes_keep

/-- `useradd` closes what its save has opened. -/
theorem tidy_addUser : Tidy (addUser fw argv) := by
  apply Book.passes_ite
  · intro _
    apply handles_after (tidy_argument argv 1)
    intro name
    apply handles_after (tidy_argument argv 2)
    intro password
    apply handles_after (tidy_accountsAdd fw name password)
    intro added
    exact Book.passes_ite (fun _ => tidy_reply fw _) fun _ => tidy_reply fw _
  · intro _
    exact tidy_reply fw _

end Commands

/-! ## The interpreter -/

section Interpreter

variable [Word α]

/-- A table of commands is tidy where its first row is and the rest is. The dispatch tables are
proved row by row with it. -/
theorem tidy_cons {row : List String × Routine σ Bool} {table : List (List String × Routine σ Bool)}
    (first : Tidy row.2) (rest : ∀ row ∈ table, Tidy row.2) : ∀ found ∈ row :: table, Tidy found.2 :=
  List.forall_mem_cons.mpr ⟨first, rest⟩

/-- A row that does something and goes on. -/
theorem tidy_goesOn {β : Type} {first : Routine σ β} (tidy : Tidy first) (result : Bool) :
    Tidy (do let _ ← first; return result) := handles_after tidy fun _ => Book.passes_keep

/-- Every row of the table closes what it opens, if the lines of a script do. -/
theorem tidy_commands {execute : Memory → Routine σ Bool} (each : ∀ command, Tidy (execute command))
    (fuel : Nat) (argv : List α) (args : Memory) :
    ∀ row ∈ commands fw execute fuel argv args, Tidy row.2 := by
  unfold commands
  refine tidy_cons (tidy_switchEcho argv) ?_
  refine tidy_cons Book.passes_keep ?_
  refine tidy_cons (tidy_switchLanguage fw argv) ?_
  refine tidy_cons (tidy_reply fw _) ?_
  refine tidy_cons (handles_after (tidy_terminalWriteArgList fw _ _) fun _ => tidy_reply fw _) ?_
  refine tidy_cons (tidy_goesOn (tidy_terminalRunNano fw fuel) false) ?_
  iterate 2 refine tidy_cons (tidy_reply fw _) ?_
  refine tidy_cons (tidy_onFile fw argv (tidy_terminalCatFile fw fuel) _) ?_
  refine tidy_cons (tidy_onFile fw argv (tidy_terminalTouchFile fw) _) ?_
  refine tidy_cons (tidy_onFile fw argv (tidy_terminalRemoveFile fw) _) ?_
  refine tidy_cons (tidy_storeWordsOf fw argv) ?_
  refine tidy_cons (tidy_onFile fw argv (tidy_terminalSourceFile fw each) _) ?_
  iterate 3 refine tidy_cons (tidy_reply fw _) ?_
  refine tidy_cons (tidy_goesOn (tidy_terminalWriteLine fw args) false) ?_
  refine tidy_cons (tidy_reply fw _) ?_
  refine tidy_cons (tidy_listDrive fw argv) ?_
  refine tidy_cons (tidy_reply fw _) ?_
  refine tidy_cons (handles_after (tidy_say fw _) fun _ => handles_after (tidy_say fw _) fun _ =>
    tidy_reply fw _) ?_
  refine tidy_cons (tidy_reply fw _) ?_
  refine tidy_cons (tidy_goesOn (tidy_say fw _) true) ?_
  iterate 5 refine tidy_cons (tidy_reply fw _) ?_
  refine tidy_cons (tidy_changeDirectory fw argv) ?_
  iterate 6 refine tidy_cons (tidy_reply fw _) ?_
  refine tidy_cons (tidy_showUser fw) ?_
  refine tidy_cons (tidy_grepWords fw argv) ?_
  refine tidy_cons (tidy_showUsers fw) ?_
  refine tidy_cons (tidy_addUser fw argv) ?_
  refine tidy_cons (tidy_goesOn (tidy_changePassword fw fuel) false) ?_
  refine tidy_cons (tidy_goesOn (tidy_terminalLogin fw fuel) false) ?_
  refine tidy_cons (tidy_reply fw _) ?_
  iterate 2 refine tidy_cons (tidy_modeSet fw _ _) ?_
  exact fun row member => absurd member List.not_mem_nil

/-- Recording a dispatched command is bookkeeping of the model and calls no firmware. -/
theorem tidy_record (name : String) (argv : List α) : Tidy (record name argv : Routine σ Unit) :=
  Book.passes_view fun _ => tidy_note rfl

/-- A table whose rows close what they open. -/
theorem tidy_dispatch (argv : List α) (word : Memory) {table : List (List String × Routine σ Bool)}
    (rows : ∀ row ∈ table, Tidy row.2) : Tidy (dispatch fw argv word table) := by
  induction table with
  | nil => exact tidy_reply fw _
  | cons row rest ih =>
    apply handles_after (tidy_orOverrun _)
    intro matched
    cases matched with
    | none => exact ih fun later member => rows later (List.mem_cons_of_mem row member)
    | some name => exact handles_after (tidy_record name argv) fun _ => rows row List.mem_cons_self

/-- Every line closes what it opens, whatever way it is taken apart.

Induct over the nesting. -/
theorem tidy_interpret {parse : Memory → Nat → Routine σ (List α)}
    (parses : ∀ command maxArgs, Tidy (parse command maxArgs)) (fuel : Nat) (command : Memory) :
    Tidy (interpret fw parse fuel command) := by
  induction fuel generalizing command with
  | zero => exact Book.passes_throw Stop.outOfFuel
  | succ fuel ih =>
    apply handles_after (parses _ _)
    intro argv
    apply handles_after (tidy_orOverrun _)
    intro args
    apply handles_after (tidy_orOverrun _)
    intro line
    apply Book.passes_ite
    · intro _
      exact handles_after (ih _) fun _ => ih _
    · intro _
      apply handles_after (tidy_terminalTryPipeline fw parses line)
      intro piped
      apply Book.passes_ite (fun _ => Book.passes_keep)
      intro _
      apply Book.passes_ite (fun _ => Book.passes_keep)
      intro _
      apply handles_after (tidy_argument argv 0)
      exact fun word => tidy_dispatch fw argv word (tidy_commands fw ih fuel argv args)

end Interpreter

/-- Parsing splits the line in memory. -/
theorem tidy_terminalParseCommand (command : Memory) (maxArgs : Nat) :
    Tidy (terminalParseCommand command maxArgs : Routine σ (List Nat)) := by
  apply Book.passes_view
  intro machine
  apply handles_after (tidy_orOverrun _)
  intro line
  apply handles_after (tidy_orOverrun _)
  intro start
  apply handles_after (tidy_orOverrun _)
  intro parsed
  exact handles_after (tidy_modifyTerminal _) fun _ => Book.passes_keep

/-- Every command line closes the file handles that it opens. -/
theorem tidy_terminalExecuteCommand (fuel : Nat) (command : Memory) :
    Tidy (terminalExecuteCommand fw fuel command) :=
  tidy_interpret fw tidy_terminalParseCommand fuel command

/-- The routines that open files close each handle exactly once and use none that is closed, and
a script is closed before the interpreter runs its lines. So lines that run inside lines hold no
files open. -/
theorem handles_closed_once (fw : Firmware σ) :
    ClosesFiles (accountsSave fw) ∧ ClosesFiles (accountsLoad fw) ∧
    (∀ maxEntries, ClosesFiles (eosfsListPath fw maxEntries)) ∧
    (∀ fuel path, ClosesFiles (terminalCatFile fw fuel path)) ∧
    (∀ path, ClosesFiles (terminalTouchFile fw path)) ∧
    (∀ path, ClosesFiles (terminalRemoveFile fw path)) ∧
    (∀ path stored append, ClosesFiles (terminalWriteFile fw path stored append)) ∧
    (∀ fuel path, ClosesFiles (terminalSourceFile fw (terminalExecuteCommand fw fuel) path)) ∧
    ClosesFiles (efiLoadKernel fw) ∧
    ∀ path, ClosesFiles (readScript fw path) ∧ ∀ execute : Memory → Routine σ Bool,
      terminalSourceFile fw execute path = (do
        let script ← readScript fw path
        runScript execute script) := by
  refine ⟨closesFiles_of_tidy (tidy_accountsSave fw), closesFiles_of_tidy (tidy_accountsLoad fw),
    fun maxEntries => closesFiles_of_tidy (tidy_eosfsListPath fw maxEntries),
    fun fuel path => closesFiles_of_tidy (tidy_terminalCatFile fw fuel path),
    fun path => closesFiles_of_tidy (tidy_terminalTouchFile fw path),
    fun path => closesFiles_of_tidy (tidy_terminalRemoveFile fw path),
    fun path stored append => closesFiles_of_tidy (tidy_terminalWriteFile fw path stored append),
    fun fuel path => ?_, closesFiles_of_tidy (tidy_efiLoadKernel fw), fun path => ?_⟩
  · exact closesFiles_of_tidy
      (tidy_terminalSourceFile fw (tidy_terminalExecuteCommand fw fuel) path)
  · exact ⟨closesFiles_of_tidy (tidy_readScript fw path),
      fun execute => terminalSourceFile_eq fw execute path⟩

end ExistentOS.Terminal
