import ExistentOS.Accounts.Refinement
import ExistentOS.Library.Realizations
import ExistentOS.Terminal.LeadingBlanks
import ExistentOS.Terminal.Nano
import ExistentOS.Terminal.RoundTrips
import ExistentOS.Terminal.Scripts

/-!
# What the shell is for

A user of the shell sees files, a registry of users, a few settings and what has been shown and typed.
This describes the command language in these terms: a line is a list of words, a file is its content
or missing, a script is a list of lines, and whoever knows a password is let in. There are no buffers,
handles, positions, tables or calls of a firmware here. Which entries a directory lists is left open,
and a command that is given the file in which the users are stored is not described.
-/

namespace ExistentOS.Terminal

open Programs Runs Accounts Credentials Eosfs

/-! ## The screen -/

/-- The line of an entry in a listing. -/
def entryLine (entry : Text × EosfsEntryType) : Text :=
  entry.1 ++ space :: text (if entry.2 = .dir then "<dir>" else "<file>") ++
    [carriageReturn, lineFeed]

/-- What is shown at a time: a text, or the listing of a drive with some entries. -/
inductive Piece where
  | written (shown : Text)
  | listing (drive : CHAR16)

/-- The texts that a piece allows. A written piece allows its text only; a listing allows any
entries whose names fit, because the workspace does not say in which order files are listed. -/
inductive Piece.Allows : Piece → Text → Prop where
  | written (shown : Text) : Allows (.written shown) shown
  | listing (drive : CHAR16) {entries : List (Text × EosfsEntryType)}
    (few : entries.length ≤ eosfsMaxEntries)
    (short : ∀ entry ∈ entries, entry.1.length ≤ eosfsNameMax ∧ (0 : CHAR16) ∉ entry.1) :
    Allows (.listing drive) (text (if drive = 0x43 then "C:/ - GPT disk partition"
      else "B:/ - GPT disk partition") ++ [carriageReturn, lineFeed] ++ entries.flatMap entryLine)

/-- What the screen may read when some pieces have been shown. The pieces follow each other, and
nothing is shown in between. -/
inductive Screen : List Piece → Text → Prop where
  | nothing : Screen [] []
  | more {pieces : List Piece} {screen shown : Text} {piece : Piece} (before : Screen pieces screen)
    (last : piece.Allows shown) : Screen (pieces ++ [piece]) (screen ++ shown)

/-- What a user of the shell sees. The users are listed in the order in which they were added. -/
structure Workspace (File : Type) where
  files : File → Option (List UInt8)
  mode : TerminalMode
  echo : Bool
  drive : CHAR16
  path : Text
  registry : Registry Text Text
  users : List Text
  shown : List Piece
  typed : List CHAR16

/-- Why a description ends: the command is not described, its nesting is used up, or a line is to
be typed. -/
inductive Beyond where
  | undescribed
  | nesting
  | waiting

/-- A description of what is done in a workspace. -/
abbrev Job (File α : Type) := Program (Workspace File) Beyond α

variable {File : Type}

/-! ## Showing -/

/-- Show a text. -/
def appear (shown : Text) : Job File Unit :=
  modify fun workspace => { workspace with shown := workspace.shown ++ [.written shown] }

/-- Show a line, with its line end. -/
def tell (line : Text) : Job File Unit := appear (line ++ [carriageReturn, lineFeed])

/-- Show a line of the source and go on. This is how most commands end. -/
def tellThat (message : String) : Job File Bool := do
  tell (text message)
  return false

/-- Go on, and tell how the command is used if it has failed. -/
def tellUsage (usage : String) (done : Bool) : Job File Bool :=
  if done then return false else tellThat usage

/-- What a piece of a file shows: a zero cuts it off. -/
def shownPiece (piece : List UInt8) : Text := (widened piece).takeWhile (· ≠ 0)

/-- What a file shows: its pieces of the size of a buffer, the last of which may be empty. -/
def shownContent (content : List UInt8) : Text :=
  (List.range (content.length / catBufferSize + 1)).flatMap fun piece =>
    shownPiece ((content.drop (piece * catBufferSize)).take catBufferSize)

/-! ## Asking -/

/-- Show a prompt and take the next line that is typed, as it has been edited. -/
def askLine (fuel limit : Nat) (prompt : Text) : Job File Text := do
  let workspace ← get
  let units := workspace.typed.takeWhile (· ≠ carriageReturn)
  if carriageReturn ∈ workspace.typed ∧ units.length < fuel then
    set { workspace with
      shown := workspace.shown ++
        [Piece.written (asked workspace.echo limit prompt units).flatten]
      typed := (workspace.typed.dropWhile (· ≠ carriageReturn)).tail }
    return editAll limit [] units
  else throw .waiting

/-- Take a password, which does not appear. Behind it the echo is on. -/
def askSecret (fuel : Nat) (prompt : String) : Job File Text := do
  modify ({ · with echo := false })
  let line ← askLine fuel credentialMax (text prompt)
  modify ({ · with echo := true })
  return line

/-! ## Users -/

/-- Let the registry answer, and keep what it has become. -/
def consult (request : Registry Text Text → Bool × Registry Text Text) : Job File Bool := do
  let workspace ← get
  let answer := request workspace.registry
  set { workspace with registry := answer.2 }
  return answer.1

/-- Ask for a name, and for the password of a name that is given. -/
def loginLine (fuel : Nat) (_ : Unit) : Job File (Unit ⊕ Bool) := do
  let name ← askLine fuel credentialMax (text "login: ")
  if name = [] then return .inl ()
  else
    let password ← askSecret fuel "password: "
    if ← consult (·.login name password) then return .inr true
    else
      tell (text "invalid credentials")
      return .inl ()

/-- `login`, and what comes in front of the shell. It goes on until a login succeeds. -/
def loginJob (fuel : Nat) : Job File Bool := iterate .nesting (loginLine fuel) fuel ()

/-- `passwd`. Both passwords are asked for before the registry is. -/
def passwordJob (fuel : Nat) : Job File Bool := do
  let old ← askSecret fuel "current password: "
  let new ← askSecret fuel "new password: "
  if ← consult (·.changeSecret Valid old new) then tellThat "password updated"
  else tellThat "password not changed"

/-- Add a user behind the others, if the registry lets the current user do so. -/
def enrol (name password : Text) : Job File Bool := do
  if ← consult (·.add adminName fisixMaxUsers Valid Valid name password) then
    modify fun workspace => { workspace with users := workspace.users ++ [name] }
    return true
  else return false

/-- `useradd`, with exactly two arguments. -/
def enrolJob : List Text → Job File Bool
  | [_, name, password] => do
    if ← enrol name password then tellThat "user created"
    else tellThat "usage: useradd <name> <password>"
  | _ => tellThat "usage: useradd <name> <password>"

/-- `whoami`. -/
def userJob : Job File Bool := do
  let workspace ← get
  tell (workspace.registry.current.getD (text "nobody"))
  return false

/-- `users`, in the order in which they were added. -/
def usersJob : Job File Bool := do
  let workspace ← get
  appear (workspace.users.flatMap (· ++ [carriageReturn, lineFeed]))
  return false

/-! ## Files -/

section Files

variable [DecidableEq File]

/-- Give a file another content, or none. Other files stay as they are. -/
def Workspace.put (workspace : Workspace File) (file : File) (content : Option (List UInt8)) :
    Workspace File :=
  { workspace with files := Function.update workspace.files file content }

/-- The content of a file, where a missing one is empty. -/
def Workspace.content (workspace : Workspace File) (file : File) : List UInt8 :=
  (workspace.files file).getD []

/-- Store a line: behind the content of the file, or over its start. -/
def storeLine (append : Bool) (file : File) (line : List UInt8) : Job File Unit :=
  modify fun workspace =>
    let old := workspace.content file
    workspace.put file (some (if append then old ++ line else line ++ old.drop line.length))

/-- Make a file if there is none, and keep its content if there is one. -/
def touchFile (file : File) : Job File Bool := do
  modify fun workspace => workspace.put file (some (workspace.content file))
  return true

/-- Take a file away, or refuse where there is none. -/
def removeFile (file : File) : Job File Bool := do
  let workspace ← get
  if (workspace.files file).isSome then
    set (workspace.put file none)
    return true
  else return false

end Files

/-- Show a file. The rounds that its pieces take are limited. -/
def showFile (fuel : Nat) (file : File) : Job File Bool := do
  let workspace ← get
  match workspace.files file with
  | none => return false
  | some content =>
    if content.length / catBufferSize < fuel then
      tell (shownContent content)
      return true
    else throw .nesting

/-- The lines of a script, as far as they are run: each up to a zero. -/
def linesOf (content : List UInt8) : List Text :=
  ((scriptLines (content.take (scriptBufferSize - 1))).map cutLine).map (·.takeWhile (· ≠ 0))

/-- Run the lines of a file, one after the other. What they answer is dropped, so an `exit` in a
script ends nothing. -/
def runFile (run : Text → Job File Bool) (file : File) : Job File Bool := do
  let workspace ← get
  match workspace.files file with
  | none => return false
  | some content =>
    (linesOf content).forM fun line => do
      let _ ← run line
      return ()
    return true

/-! ## Commands -/

/-- Do something with the file of a path, unless the users are stored in it. -/
def onFileOf [DecidableEq File] (resolve : Text → File) (path : Text) {α : Type}
    (job : File → Job File α) : Job File α :=
  if resolve path = resolve storeName then throw .undescribed else job (resolve path)

/-- A command with a path as its only argument. Any other number of words is answered by the
usage. -/
def onPath [DecidableEq File] (resolve : Text → File) (job : File → Job File Bool)
    (usage : String) : List Text → Job File Bool
  | [_, path] => onFileOf resolve path job >>= tellUsage usage
  | _ => tellThat usage

/-- `write` and `append`, with a path and at least one word. -/
def storeJob [DecidableEq File] (resolve : Text → File) (words : List Text) : Job File Bool :=
  match words with
  | name :: path :: word :: rest => onFileOf resolve path fun file => do
    storeLine (name = text "append") file (lineOf (word :: rest))
    return false
  | _ => tellThat "usage: write|append <file> <text"

/-- `@echo`. -/
def echoJob (words : List Text) : Job File Bool := do
  if words[1]? = some (text "off") then
    modify ({ · with echo := false })
    return false
  else if words[1]? = some (text "on") then
    modify ({ · with echo := true })
    return false
  else return false

/-- Another mode comes with the echo, which is on from then on. -/
def enterMode (mode : TerminalMode) : Job File Unit := modify ({ · with mode := mode, echo := true })

/-- `switchlang`. -/
def languageJob (words : List Text) : Job File Bool := do
  if words[1]? = some (text "bash") then
    enterMode .bash
    tellThat "switched to bash"
  else if words[1]? = some (text "batch") then
    enterMode .batch
    tellThat "switched to batch"
  else tellThat "usage: switchlang bash | batch"

/-- The drive that a word starts with: a capital letter in front of a colon. -/
def driveOf : Text → Option CHAR16
  | drive :: colon :: _ =>
    if 0x41 ≤ drive ∧ drive ≤ 0x5A ∧ colon = 0x3A then some drive else none
  | _ => none

/-- Every letter is taken as a drive, but only two of them have a path. -/
def Workspace.onDrive (workspace : Workspace File) (drive : CHAR16) : Workspace File :=
  { workspace with
    drive := drive
    path := if drive = 0x42 ∨ drive = 0x43 then drive :: text ":/" else workspace.path }

/-- `dir` and `ls`. What is listed is left open, as only the firmware knows it. -/
def listJob (words : List Text) : Job File Bool := do
  match words[1]?.bind driveOf with
  | some drive => modify (·.onDrive drive)
  | none => pure ()
  modify fun workspace =>
    { workspace with shown := workspace.shown ++ [.listing workspace.drive] }
  return false

/-- `cd`, which shows the path and never changes more of it than the drive. -/
def directoryJob (words : List Text) : Job File Bool := do
  match words[1]?.bind driveOf with
  | some drive =>
    modify (·.onDrive drive)
    tell (text "drive set to")
  | none => pure ()
  let workspace ← get
  tell workspace.path
  return false

/-- `grep`, on the words behind the pattern. -/
def searchJob : List Text → Job File Bool
  | _ :: pattern :: word :: rest => do
    appear (matching pattern (word :: rest))
    return false
  | _ => tellThat "usage: grep <pattern> <text>"

/-- A round of the editor, which keeps nothing but the number of its lines. -/
def nanoLine (fuel count : Nat) : Job File (Nat ⊕ Unit) := do
  let line ← askLine fuel terminalMaxLine (text "nano> ")
  appear (nanoTexts count line).flatten
  return nanoNext count line

/-- `nano`, which leaves the files as they are. -/
def nanoJob (fuel : Nat) : Job File Unit := do
  tell (text "nano-like editor entered")
  tell (text "type lines, save, or exit")
  iterate .nesting (nanoLine fuel) fuel 0

/-- The commands with their names, for the words of a line and what stands behind its first
space. -/
def jobs [DecidableEq File] (resolve : Text → File) (run : Text → Job File Bool) (fuel : Nat)
    (words : List Text) (args : Text) : List (List String × Job File Bool) := [
  (["@echo"], echoJob words),
  (["rem"], return false),
  (["switchlang"], languageJob words),
  (["help"], tellThat ("available commands: help, echo, status, system, ver, dir, ls, mem, " ++
    "clear, cls, pause, exit, shutdown, reboot, type, set, time, date, cd, copy, del, ren, md, " ++
    "rd, path, whoami, pwd, switchlang")),
  (["echo"], do
    tell (joined space words.tail)
    return false),
  (["nano"], do
    nanoJob fuel
    return false),
  (["apps"], tellThat "apps: nano, calc, cat, memo, todo"),
  (["calc"], tellThat "calculator stub ready"),
  (["cat"], onPath resolve (showFile fuel) "usage: cat <file>" words),
  (["touch"], onPath resolve touchFile "usage: touch <file>" words),
  (["rm"], onPath resolve removeFile "usage: rm <file>" words),
  (["write", "append"], storeJob resolve words),
  (["source"], onPath resolve (runFile run) "usage: source <script>" words),
  (["memo"], tellThat "memo app ready"),
  (["todo"], tellThat "todo: some more junk"),
  (["status"], tellThat "ok"),
  (["system"], do
    tell args
    return false),
  (["ver"], tellThat "Fisix OS batch terminal 0.1"),
  (["dir", "ls"], listJob words),
  (["mem"], tellThat "memory manager ready"),
  (["clear", "cls"], do
    tell (text " ")
    tell (text " ")
    tellThat " "),
  (["pause"], tellThat "press any key to continue"),
  (["exit", "shutdown"], do
    tell (text "shutdown command received")
    return true),
  (["reboot"], tellThat "reboot command received"),
  (["type"], tellThat "bat script execution support active"),
  (["set"], tellThat "environment variables set"),
  (["time"], tellThat "00:00:00"),
  (["date"], tellThat "06/08/2026"),
  (["cd"], directoryJob words),
  (["copy"], tellThat "copy operation supported"),
  (["del"], tellThat "delete operation supported"),
  (["ren"], tellThat "rename operation supported"),
  (["md"], tellThat "directory creation supported"),
  (["rd"], tellThat "directory removal supported"),
  (["path"], tellThat "path set to Fisix OS"),
  (["whoami"], userJob),
  (["grep"], searchJob words),
  (["users"], usersJob),
  (["useradd"], enrolJob words),
  (["passwd"], passwordJob fuel),
  (["login"], do
    let _ ← loginJob fuel
    return false),
  (["pwd"], tellThat "/"),
  (["bash"], do
    enterMode .bash
    tellThat "bash mode enabled"),
  (["batch"], do
    enterMode .batch
    tellThat "batch mode enabled")]

/-- Do what the command of a name does. A name that no command has is answered by a message. -/
def pick (word : Text) : List (List String × Job File Bool) → Job File Bool
  | [] => tellThat "unknown command"
  | (names, job) :: rest => if names.any (word = text ·) then job else pick word rest

/-- A line with a bar: the text behind `echo` is shown if it contains the pattern of `grep`. -/
def pipelineJob (left right : Text) : Job File Bool :=
  if (runs isBlank left).head? = some (text "echo") ∧ 2 ≤ (runs isBlank left).length then
    match runs isBlank right with
    | [name, pattern] =>
      if name = text "grep" then
        if pattern <:+: trimmed (left.drop 5) then do
          tell (trimmed (left.drop 5))
          return false
        else return false
      else tellThat "usage: echo <text> | grep <pattern>"
    | _ => tellThat "usage: echo <text> | grep <pattern>"
  else tellThat "pipes currently support echo | grep"

/-- Carry a line out: whether the shell is to end. The nesting of lists and scripts is limited. -/
def carryOut [DecidableEq File] (resolve : Text → File) : Nat → Text → Job File Bool
  | 0, _ => throw .nesting
  | fuel + 1, line =>
    if ampersand ∈ line then do
      let _ ← carryOut resolve fuel (trimmed (line.takeWhile (· ≠ ampersand)))
      carryOut resolve fuel (trimmed (line.dropWhile (· ≠ ampersand)).tail)
    else if bar ∈ line then
      pipelineJob (line.takeWhile (· ≠ bar)) (line.dropWhile (· ≠ bar)).tail
    else match tokens terminalMaxArgs line with
      | [] => return false
      | word :: rest => pick word
        (jobs resolve (carryOut resolve fuel) fuel (word :: rest) (argsOf line))

/-! ## The shell -/

/-- What the shell shows in front of a line: the drive and the mode. -/
def Workspace.prompt (workspace : Workspace File) : Text :=
  workspace.drive :: text ":/ " ++ (match workspace.mode with
    | .bash => text "bash"
    | .batch => text "batch") ++ text "> "

/-- Carry out the next line, unless it is empty. -/
def shellLine [DecidableEq File] (resolve : Text → File) (fuel : Nat) (_ : Unit) :
    Job File (Unit ⊕ Unit) := do
  let workspace ← get
  let line ← askLine fuel terminalMaxLine workspace.prompt
  if line = [] then return .inl ()
  else if ← carryOut resolve fuel line then return .inr ()
  else return .inl ()

/-- Carry out the lines that are typed up to the first one that ends the shell. -/
def shellJob [DecidableEq File] (resolve : Text → File) (fuel : Nat) : Job File Unit := do
  tell (text "Fisix OS shell ready")
  iterate .nesting (shellLine resolve fuel) fuel ()

end ExistentOS.Terminal
