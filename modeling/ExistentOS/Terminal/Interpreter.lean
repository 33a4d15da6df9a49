import ExistentOS.Eosfs
import ExistentOS.Terminal.FileCommands
import ExistentOS.Terminal.Interactive

/-!
# The command interpreter

`terminal_execute_command`: split at the first `&`, try a pipeline, then run the
first command whose name matches the first word. The chain of tests in the source is
a table here, in the same order. The interpreter calls itself for the two sides of an
`&` and for the lines of a script, so the table takes it as a parameter; the fuel
limits the nesting of these calls and the rounds of every loop. How a line is taken apart
is a parameter as well: in the source the words are places in one line buffer.
-/

namespace ExistentOS.Terminal

open Programs Terminated Accounts Eosfs

variable {σ α : Type} [Word α] (fw : Firmware σ)

/-- The unit that separates the parts of a line. -/
def ampersand : CHAR16 := 0x26

/-- The unit that separates the sides of a pipeline. -/
def bar : CHAR16 := 0x7C

/-- Print a text and report that the shell goes on. -/
def reply (message : String) : Routine σ Bool := do
  say fw message
  return false

/-- Report that the shell goes on, after a usage line if the command has failed. -/
def orUsage (done : Bool) (usage : String) : Routine σ Bool :=
  if done then return false else reply fw usage

/-- `terminal_write_arg_list`, for the words to be written. They are joined by single spaces,
however they were typed. -/
def terminalWriteArgList (separate : Bool) : List α → Routine σ Unit
  | [] => return ()
  | entry :: rest => do
    if separate then terminalWrite fw [space, 0]
    let machine ← get
    terminalWrite fw (Word.memory machine.terminal entry)
    terminalWriteArgList true rest

/-! ## Pipelines -/

/-- `terminal_match_command(argv[0], name)`, if the number of words is admissible. Otherwise the
word is not read. -/
def isCall (admissible : Bool) (argv : List α) (name : String) : Routine σ Bool := do
  if admissible then
    let word ← argument argv 0
    orOverrun (terminalMatchCommand word (constant name))
  else return false

/-- The segment from so many units behind its start on, as far as that is within the segment. -/
def behind (count : Nat) (segment : Text) : Option Text :=
  if count ≤ segment.length then some (segment.drop count) else none

/-- `terminal_try_pipeline`: whether the line was a pipeline. Only `echo` into `grep` is carried
out, and other pipelines are answered by a message. -/
def terminalTryPipeline (parse : Memory → Nat → Routine σ (List α)) (line : Text) :
    Routine σ Bool := do
  if bar ∈ line then
    let left := line.takeWhile (· ≠ bar)
    let right := (line.dropWhile (· ≠ bar)).tail
    let argv ← parse (terminalCopySegment left) terminalMaxArgs
    if ← isCall (argv.length ≥ 2) argv "echo" then
      let argv ← parse (terminalCopySegment right) terminalMaxArgs
      if ← isCall (argv.length = 2) argv "grep" then
        let echoed := terminalCopySegment (← orOverrun (behind 5 left))
        let needle ← argument argv 1
        if ← orOverrun (terminalContains echoed needle) then terminalWriteLine fw echoed
        return true
      else
        say fw "usage: echo <text> | grep <pattern>"
        return true
    else
      say fw "pipes currently support echo | grep"
      return true
  else return false

/-! ## Commands with arguments -/

/-- `argc > 1 && terminal_match_command(argv[1], name)`. -/
def firstArgumentIs (argv : List α) (name : String) : Routine σ Bool := do
  if argv.length > 1 then
    let word ← argument argv 1
    orOverrun (terminalMatchCommand word (constant name))
  else return false

/-- `@echo`. Another argument than `on` and `off` is ignored. -/
def switchEcho (argv : List α) : Routine σ Bool := do
  if ← firstArgumentIs argv "off" then
    setEcho false
    return false
  else if ← firstArgumentIs argv "on" then
    setEcho true
    return false
  else return false

/-- `terminal_set_mode`. -/
def setMode (mode : TerminalMode) : Routine σ Unit := modifyTerminal (terminalSetMode mode)

/-- `switchlang`. Another argument than the two modes is answered by the usage. -/
def switchLanguage (argv : List α) : Routine σ Bool := do
  if ← firstArgumentIs argv "bash" then
    setMode .bash
    reply fw "switched to bash"
  else if ← firstArgumentIs argv "batch" then
    setMode .batch
    reply fw "switched to batch"
  else reply fw "usage: switchlang bash | batch"

/-- `argc > 1 && terminal_drive_prefix(argv[1], &terminal_current_drive)` with the
`terminal_set_drive` that follows. The letter is stored before it is validated. -/
def changeDrive (argv : List α) : Routine σ Bool := do
  if argv.length > 1 then
    match ← orOverrun (terminalDrivePrefix (← argument argv 1)) with
    | some drive =>
      modifyTerminal fun terminal => terminalSetDrive drive { terminal with currentDrive := drive }
      return true
    | none => return false
  else return false

/-- The lines of a listing: name, space and type of each entry. -/
def showEntries : List ListedEntry → Routine σ Unit
  | [] => return ()
  | (name, type) :: rest => do
    terminalWriteField fw name
    terminalWrite fw [space, 0]
    terminalWrite fw (if type = .dir then constant "<dir>" else constant "<file>")
    terminalWriteLine fw [0]
    showEntries rest

/-- `terminal_show_drive_root`. The drive decides the header only; both drives list the same
entries. -/
def terminalShowDriveRoot (drive : CHAR16) : Routine σ Unit := do
  match ← eosfsListPath fw eosfsMaxEntries with
  | none => say fw "file system unavailable"
  | some entries =>
    say fw (if drive = 0x43 then "C:/ - GPT disk partition" else "B:/ - GPT disk partition")
    showEntries fw entries

/-- `dir` and `ls`, which change the drive before they list it. -/
def listDrive (argv : List α) : Routine σ Bool := do
  let _ ← changeDrive argv
  let machine ← get
  terminalShowDriveRoot fw machine.terminal.currentDrive
  return false

/-- `cd`. What is printed is the path, also where the letter has been stored without it. -/
def changeDirectory (argv : List α) : Routine σ Bool := do
  if ← changeDrive argv then
    say fw "drive set to"
  let machine ← get
  terminalWriteFieldLine fw machine.terminal.currentPath.toList
  return false

/-- A file command with one argument. A failure is answered like a wrong number of arguments, by
the usage. -/
def onFile (argv : List α) (command : Memory → Routine σ Bool) (usage : String) :
    Routine σ Bool := do
  if argv.length = 2 then
    let path ← argument argv 1
    orUsage fw (← command path) usage
  else reply fw usage

/-- `write` and `append`, which differ in where the file is positioned. -/
def storeWordsOf (argv : List α) : Routine σ Bool := do
  let append ← isCall true argv "append"
  if argv.length ≥ 3 then
    let path ← argument argv 1
    let machine ← get
    let stored := (argv.drop 2).map (Word.memory machine.terminal)
    orUsage fw (← terminalWriteFile fw path stored append) "usage: write|append <file> <text"
  else reply fw "usage: write|append <file> <text"

/-- The words of `grep` that contain the pattern, each on a line of its own. -/
def showMatching (needle : Memory) : List Memory → Routine σ Unit
  | [] => return ()
  | word :: rest => do
    if ← orOverrun (terminalContains word needle) then terminalWriteLine fw word
    showMatching needle rest

omit [Word α] in
/-- A search reads its pattern up to the terminator only. -/
theorem showMatching_reads : ReadsString (showMatching fw) := by
  intro needle rest free
  funext words
  induction words with
  | nil => rfl
  | cons word later ih =>
    simp only [showMatching, terminalContains_readsNeedle word needle rest free, ih]

/-- `grep` on the words of its own line. It reads no file. -/
def grepWords (argv : List α) : Routine σ Bool := do
  if argv.length < 3 then reply fw "usage: grep <pattern> <text>"
  else
    let needle ← argument argv 1
    let machine ← get
    showMatching fw needle ((argv.drop 2).map (Word.memory machine.terminal))
    return false

/-! ## Accounts -/

/-- `whoami`. -/
def showUser : Routine σ Bool := do
  let machine ← get
  terminalWriteFieldLine fw (← orFault (accountsCurrentUser machine.accounts))
  return false

/-- `users`, which prints the names in the order of the table. -/
def showUsers : Routine σ Bool := do
  let machine ← get
  (List.range (accountsCount machine.accounts)).forM fun index => do
    terminalWriteFieldLine fw (← orFault (accountsUserAt machine.accounts index))
  return false

/-- `useradd`. A failed save is answered by the usage, like a wrong call. -/
def addUser (argv : List α) : Routine σ Bool := do
  if argv.length = 3 then
    let name ← argument argv 1
    let password ← argument argv 2
    if ← accountsAdd fw name password then reply fw "user created"
    else reply fw "usage: useradd <name> <password>"
  else reply fw "usage: useradd <name> <password>"

/-! ## The table -/

/-- The commands in the order of the source, each with its names and with what it does
for a line that has been taken apart. -/
def commands (execute : Memory → Routine σ Bool) (fuel : Nat) (argv : List α) (args : Memory) :
    List (List String × Routine σ Bool) := [
  (["@echo"], switchEcho argv),
  (["rem"], return false),
  (["switchlang"], switchLanguage fw argv),
  (["help"], reply fw ("available commands: help, echo, status, system, ver, dir, ls, mem, " ++
    "clear, cls, pause, exit, shutdown, reboot, type, set, time, date, cd, copy, del, ren, md, " ++
    "rd, path, whoami, pwd, switchlang")),
  (["echo"], do
    terminalWriteArgList fw false argv.tail
    reply fw ""),
  (["nano"], do
    terminalRunNano fw fuel
    return false),
  (["apps"], reply fw "apps: nano, calc, cat, memo, todo"),
  (["calc"], reply fw "calculator stub ready"),
  (["cat"], onFile fw argv (terminalCatFile fw fuel) "usage: cat <file>"),
  (["touch"], onFile fw argv (terminalTouchFile fw) "usage: touch <file>"),
  (["rm"], onFile fw argv (terminalRemoveFile fw) "usage: rm <file>"),
  (["write", "append"], storeWordsOf fw argv),
  (["source"], onFile fw argv (terminalSourceFile fw execute) "usage: source <script>"),
  (["memo"], reply fw "memo app ready"),
  (["todo"], reply fw "todo: some more junk"),
  (["status"], reply fw "ok"),
  (["system"], do
    terminalWriteLine fw args
    return false),
  (["ver"], reply fw "Fisix OS batch terminal 0.1"),
  (["dir", "ls"], listDrive fw argv),
  (["mem"], reply fw "memory manager ready"),
  (["clear", "cls"], do
    say fw " "
    say fw " "
    reply fw " "),
  (["pause"], reply fw "press any key to continue"),
  (["exit", "shutdown"], do
    say fw "shutdown command received"
    return true),
  (["reboot"], reply fw "reboot command received"),
  (["type"], reply fw "bat script execution support active"),
  (["set"], reply fw "environment variables set"),
  (["time"], reply fw "00:00:00"),
  (["date"], reply fw "06/08/2026"),
  (["cd"], changeDirectory fw argv),
  (["copy"], reply fw "copy operation supported"),
  (["del"], reply fw "delete operation supported"),
  (["ren"], reply fw "rename operation supported"),
  (["md"], reply fw "directory creation supported"),
  (["rd"], reply fw "directory removal supported"),
  (["path"], reply fw "path set to Fisix OS"),
  (["whoami"], showUser fw),
  (["grep"], grepWords fw argv),
  (["users"], showUsers fw),
  (["useradd"], addUser fw argv),
  (["passwd"], do
    changePassword fw fuel
    return false),
  (["login"], do
    let _ ← terminalLogin fw fuel
    return false),
  (["pwd"], reply fw "/"),
  (["bash"], do
    setMode .bash
    reply fw "bash mode enabled"),
  (["batch"], do
    setMode .batch
    reply fw "batch mode enabled")]

/-- The words of a line that has been taken apart. -/
def wordsOf (terminal : TerminalStorage) (argv : List α) : List Text :=
  argv.map fun entry => (scan (Word.memory terminal entry)).getD []

/-- Record a command with the words of its line. This is an observation of the model and no call
of the source. -/
def record (name : String) (argv : List α) : Routine σ Unit := do
  let machine ← get
  note (.command (text name) (wordsOf machine.terminal argv))

/-- Record and run the first command whose name matches. Later rows with the same name would
never be run. -/
def dispatch (argv : List α) (word : Memory) :
    List (List String × Routine σ Bool) → Routine σ Bool
  | [] => reply fw "unknown command"
  | (names, run) :: rest => do
    match ← orOverrun (matchedName word names) with
    | some name =>
      record name argv
      run
    | none => dispatch argv word rest

/-! ## The interpreter -/

/-- `terminal_execute_command`, calling a given interpreter for the two sides of an `&` and the
commands of a given table. -/
def executeLine (parse : Memory → Nat → Routine σ (List α)) (execute : Memory → Routine σ Bool)
    (table : List α → Memory → List (List String × Routine σ Bool)) (command : Memory) :
    Routine σ Bool := do
  let argv ← parse command terminalMaxArgs
  let args ← orOverrun (terminalCommandArgs command)
  let line ← orOverrun (scan command)
  if ampersand ∈ line then
    let _ ← execute (terminalCopySegment (line.takeWhile (· ≠ ampersand)))
    execute (terminalCopySegment ((line.dropWhile (· ≠ ampersand)).tail))
  else if ← terminalTryPipeline fw parse line then return false
  else if argv.isEmpty then return false
  else
    let word ← argument argv 0
    dispatch fw argv word (table argv args)

/-- The interpreter over a way to take lines apart. The fuel bounds how deep lines are run inside
lines. -/
def interpret (parse : Memory → Nat → Routine σ (List α)) : Nat → Memory → Routine σ Bool
  | 0, _ => throw .outOfFuel
  | fuel + 1, command =>
    executeLine fw parse (interpret parse fuel) (commands fw (interpret parse fuel) fuel) command

/-- `terminal_execute_command`: whether the shell is to end. Its words lie in the shared line
buffer. -/
def terminalExecuteCommand (fuel : Nat) (command : Memory) : Routine σ Bool :=
  interpret fw terminalParseCommand fuel command

end ExistentOS.Terminal
