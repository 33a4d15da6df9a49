import ExistentOS.Listings
import ExistentOS.Terminal.CalmFiles
import ExistentOS.Terminal.Drives
import ExistentOS.Terminal.Users

/-!
# The interpreter does what is described

A machine on a volume without failing calls presents a workspace: its files, the settings that can
be seen, the users, and what has been written to the console. `terminal_execute_command` carries out
on it what the description says, line by line and command by command.
-/

namespace ExistentOS.Terminal

open Programs Terminated Runs Accounts Volume

/-! ## Strings and words -/

section Words

variable {σ : Type} {fw : Firmware σ}

/-- A field that holds a string is written, up to its terminator and in one call. -/
theorem shows_writeField (fw : Firmware σ) {memory : Memory} {shown : Text}
    (readable : scan memory = some shown) : Shows fw [shown] () (terminalWriteField fw memory) := by
  intro machine
  have entered : (get : Routine σ _).run machine = .ok (machine, machine) := rfl
  rw [terminalWriteField, terminalPut, run_bind_of_ok entered, readable, afterWrites_cons,
    afterWrites_nil, afterWrite]
  by_cases console : canWrite machine
  · rw [if_pos console, if_pos console]
    rfl
  · rw [if_neg console, if_neg console]
    rfl

/-- A field on its own line shows its text and then the line end, in two calls of the console. -/
theorem shows_writeFieldLine (fw : Firmware σ) {memory : Memory} {shown : Text}
    (readable : scan memory = some shown) :
    Shows fw [shown, [carriageReturn, lineFeed]] () (terminalWriteFieldLine fw memory) := by
  have lineEnd : (0 : CHAR16) ∉ [carriageReturn, lineFeed] := by decide
  exact (shows_writeField fw readable).bind (shows_terminalWrite lineEnd)

/-- The first argument is compared as a whole. Since words contain no blanks, a name that it only
begins with does not match. -/
theorem firstArgumentIs_words {words : List Text}
    (solid : ∀ word ∈ words, ∀ unit ∈ word, unit ≠ 0 ∧ unit ≠ space) {name : String}
    (free : (0 : CHAR16) ∉ text name) :
    (firstArgumentIs words name : Routine σ Bool) =
      pure (decide (words[1]? = some (text name))) := by
  rcases words with _ | ⟨first, _ | ⟨second, rest⟩⟩
  · rfl
  · rfl
  · have matched := terminalMatchCommand_word second (text name) (solid second (by simp)) free
    have compared : (firstArgumentIs (first :: second :: rest) name : Routine σ Bool) =
        orOverrun (terminalMatchCommand (second ++ [0]) (constant name)) := by
      simp [firstArgumentIs]
      rfl
    rw [compared, constant, matched]
    simp
    rfl

/-- A drive is read off the first two units of a word. What follows them is not looked at. -/
theorem terminalDrivePrefix_word (word : Text) :
    terminalDrivePrefix (word ++ [0]) = some (driveOf word) := by
  rcases word with _ | ⟨drive, _ | ⟨colon, rest⟩⟩
  · rfl
  · by_cases letter : 0x41 ≤ drive ∧ drive ≤ 0x5A <;> simp [terminalDrivePrefix, driveOf, letter]
  · by_cases letter : 0x41 ≤ drive ∧ drive ≤ 0x5A
    · simp [terminalDrivePrefix, driveOf, letter]
    · have none : ¬ (0x41 ≤ drive ∧ drive ≤ 0x5A ∧ colon = 0x3A) := by tauto
      simp [terminalDrivePrefix, driveOf, letter, none]

/-- Skipping stops in front of what is appended, if it stops at all before. -/
theorem skipWhile_append {kind : CHAR16 → Bool} {memory found : Memory}
    (skipped : skipWhile kind memory = some found) (rest : Memory) :
    skipWhile kind (memory ++ rest) = some (found ++ rest) := by
  induction memory with
  | nil => cases skipped
  | cons unit later ih =>
    by_cases skips : kind unit = true
    · simp only [skipWhile, skips, if_true] at skipped
      simpa [skipWhile, skips] using ih skipped
    · simp only [skipWhile, skips, if_false, Option.some.injEq, Bool.false_eq_true] at skipped
      simp [skipWhile, skips, ← skipped]

/-- What stands behind the first space is a string again, so it can be written as one. -/
theorem terminalCommandArgs_scan {command : Memory} {line : Text}
    (readable : scan command = some line) :
    ∃ args, terminalCommandArgs command = some args ∧ scan args = some (argsOf line) := by
  obtain ⟨free, rest, rfl⟩ := scan_split command line readable
  have exactly := terminalCommandArgs_exact free
  obtain ⟨behind, first, second⟩ := Option.bind_eq_some_iff.mp exactly
  have argsFree : (0 : CHAR16) ∉ argsOf line := fun zero => free (argsOf_subset line zero)
  refine ⟨argsOf line ++ 0 :: rest, ?_, scan_append _ rest argsFree⟩
  have whole : line ++ 0 :: rest = line ++ [0] ++ rest := by simp
  rw [terminalCommandArgs, whole, skipWhile_append first]
  simpa using skipWhile_append second rest

/-- The first argument is taken for a drive. The letter is stored in any case, and the path only
for the two drives. -/
theorem changeDrive_words (words : List Text) :
    (changeDrive words : Routine σ Bool) = match words[1]?.bind driveOf with
      | some drive => do
        modifyTerminal fun terminal =>
          terminalSetDrive drive { terminal with currentDrive := drive }
        return true
      | none => return false := by
  rcases words with _ | ⟨first, _ | ⟨second, rest⟩⟩
  · rfl
  · rfl
  · have taken : (changeDrive (first :: second :: rest) : Routine σ Bool) = (do
        match ← orOverrun (terminalDrivePrefix (second ++ [0])) with
        | some drive =>
          modifyTerminal fun terminal =>
            terminalSetDrive drive { terminal with currentDrive := drive }
          return true
        | none => return false) := by
      simp [changeDrive]
      rfl
    have named : (first :: second :: rest)[1]?.bind driveOf = driveOf second := rfl
    rw [taken, terminalDrivePrefix_word, named, orOverrun, orStop, pure_bind]

/-- The names of some users are shown on lines, in the order of the table. -/
theorem shows_users (fw : Firmware σ) {read : Nat → Option Memory} {indices : List Nat}
    {names : List Text}
    (found : indices.map (fun index => (read index).bind scan) = names.map some) :
    ∃ texts, Shows fw texts () (indices.forM fun index => do
        terminalWriteFieldLine fw (← orFault (read index))) ∧
      texts.flatten = names.flatMap (· ++ [carriageReturn, lineFeed]) := by
  induction indices generalizing names with
  | nil =>
    obtain rfl : names = [] := by simpa using found.symm
    exact ⟨[], shows_pure (), rfl⟩
  | cons index rest ih =>
    cases names with
    | nil => cases found
    | cons name others =>
      rw [List.map_cons, List.map_cons, List.cons.injEq] at found
      obtain ⟨memory, here, readable⟩ := Option.bind_eq_some_iff.mp found.1
      obtain ⟨texts, showing, flat⟩ := ih found.2
      refine ⟨[name, [carriageReturn, lineFeed]] ++ texts, ?_, by simp [flat]⟩
      have stepped : ((index :: rest).forM fun index => do
          terminalWriteFieldLine fw (← orFault (read index)) : Routine σ Unit) = (do
          terminalWriteFieldLine fw memory
          rest.forM fun index => do terminalWriteFieldLine fw (← orFault (read index))) := by
        simp only [List.forM, here]
        rfl
      rw [stepped]
      exact (shows_writeFieldLine fw readable).then showing

/-- The words of a line fit into it with their ends. So no word is longer than a buffer for the
line. -/
theorem tokens_room (line : Text) :
    ((tokens terminalMaxArgs line).map (·.length + 1)).sum ≤ terminalMaxLine := by
  have kept : (tokens terminalMaxArgs line).Sublist
      (runs isBlank (line.take (terminalMaxLine - 1))) := List.take_sublist _ _
  have fewer : ((tokens terminalMaxArgs line).map (·.length + 1)).sum ≤
      ((runs isBlank (line.take (terminalMaxLine - 1))).map (·.length + 1)).sum :=
    (kept.map _).sum_le_sum fun _ _ => Nat.zero_le _
  have total := runs_total isBlank (line.take (terminalMaxLine - 1))
  have short : (line.take (terminalMaxLine - 1)).length ≤ terminalMaxLine - 1 :=
    List.length_take_le _ _
  have bound : terminalMaxLine = 128 := rfl
  omega

end Words

/-! ## Routines that ask for nothing -/

section Ignores

variable {σ : Type} {fw : Firmware σ} {keys : σ → List CHAR16} (keyboard : Keyboard fw keys)
include keyboard

/-- `touch` leaves the keyboard as it was. The calls that it makes are those of the file system
and the console, and neither takes a key. -/
theorem Keyboard.ignores_touch (path : Memory) :
    Keeps (Ignores keys) (terminalTouchFile fw path) := by
  have frame := keyboard.frame_untouched
  have composed : Composed (untouched fw) (fun _ => True) Nothing
      (terminalTouchFile (untouched fw) path) := composed_terminalTouchFile (Or.inr trivial)
  exact composed.keepsQuiet

/-- `rm` leaves the keyboard as it was. Deleting a file takes no key. -/
theorem Keyboard.ignores_remove (path : Memory) :
    Keeps (Ignores keys) (terminalRemoveFile fw path) := by
  have frame := keyboard.frame_untouched
  have composed : Composed (untouched fw) (fun _ => True) (FileStep (untouched fw))
      (terminalRemoveFile (untouched fw) path) :=
    composed_terminalRemoveFile (fun _ _ step => step) (Or.inr trivial)
  exact composed.keepsFiles

/-- `write` and `append` leave the keyboard as it was. -/
theorem Keyboard.ignores_write (path : Memory) (stored : List Memory) (append : Bool) :
    Keeps (Ignores keys) (terminalWriteFile fw path stored append) := by
  have frame := keyboard.frame_untouched
  have composed : Composed (untouched fw) (fun _ => True) (FileStep (untouched fw))
      (terminalWriteFile (untouched fw) path stored append) :=
    composed_terminalWriteFile (fun _ _ step => step) (Or.inr trivial) (Or.inr trivial) append
  exact composed.keepsFiles

/-- `cat` leaves the keyboard as it was, however many reads the file takes. -/
theorem Keyboard.ignores_cat (fuel : Nat) (path : Memory) :
    Keeps (Ignores keys) (terminalCatFile fw fuel path) := by
  have frame := keyboard.frame_untouched
  have composed : Composed (untouched fw) (fun _ => True) Nothing
      (terminalCatFile (untouched fw) fuel path) :=
    composed_terminalCatFile (Or.inr trivial) trivial fuel (Or.inr trivial)
  exact composed.keepsQuiet

/-- The accounts take nothing from the keyboard: their calls go to the volume, and their changes
to the table. -/
theorem Keyboard.storage_untouched : StorageFrame (untouched fw) (Ignores keys) := by
  have frame := keyboard.frame_untouched
  exact { frame with
    modifyAccounts := fun _ => keeps_modify fun _ => rfl
    modifyEosfs := fun _ => keeps_modify fun _ => rfl }

/-- Changing the accounts leaves the keyboard as it was. The passwords have been typed before. -/
theorem Keyboard.ignores_request (request : Request) :
    Keeps (Ignores keys) (request.perform fw) := by
  have frame := keyboard.storage_untouched
  have storage : ∀ (α : Type) (step : Routine σ α), StorageStep (untouched fw) α step →
      StorageStep (untouched fw) α step := fun _ _ named => named
  cases request with
  | add name password =>
    have composed : Composed (untouched fw) (fun _ => True) (StorageStep (untouched fw))
        (accountsAdd (untouched fw) name password) :=
      composed_accountsAdd storage (Or.inr trivial)
    exact composed.keepsStorage
  | changePassword old new =>
    have composed : Composed (untouched fw) (fun _ => True) (StorageStep (untouched fw))
        (accountsChangePassword (untouched fw) old new) :=
      composed_accountsChangePassword storage (Or.inr trivial)
    exact composed.keepsStorage

end Ignores

/-! ## Presenting a workspace -/

section Presents

variable {File τ : Type}

/-- The machine has the files, settings and users of the workspace, has shown what it has, and its
keyboard has the same units. There are a file system and a console, no call of the file system
fails, the users are those that are stored in their file, and the entry table has names. -/
structure Presents (resolve : Text → File) (keys : Volume File × τ → List CHAR16)
    (machine : Machine (Volume File × τ)) (workspace : Workspace File) : Prop where
  writes : canWrite machine = true
  reads : canRead machine = true
  letter : machine.terminal.currentDrive ≠ 0
  refines : Refines (resolve storeName) machine workspace.registry
  files : ∀ file ≠ resolve storeName, machine.firmware.1.contents file = workspace.files file
  mode : machine.terminal.mode = workspace.mode
  echo : machine.terminal.echoEnabled = workspace.echo
  drive : machine.terminal.currentDrive = workspace.drive
  path : scan machine.terminal.currentPath.toList = some workspace.path
  users : roster machine.accounts = workspace.users.map some
  table : ∀ listed ∈ Eosfs.tableShown machine.eosfs, listed.isSome
  shown : Screen workspace.shown (output machine.trace)
  typed : keys machine.firmware = workspace.typed

variable {resolve : Text → File} {keys : Volume File × τ → List CHAR16}
variable {machine after : Machine (Volume File × τ)} {workspace : Workspace File}

/-- A machine that presents a workspace finds its file system. -/
theorem Presents.locates (presents : Presents resolve keys machine workspace) :
    machine.canLocate = true := presents.refines.working.available

/-- A machine that presents a workspace has no faults ahead. -/
theorem Presents.calm (presents : Presents resolve keys machine workspace) :
    machine.firmware.1.faults = [] := presents.refines.working.faultFree

/-- Somebody is logged in under the name that the registry has, or nobody is. -/
theorem Presents.user (presents : Presents resolve keys machine workspace) :
    (accountsCurrentUser machine.accounts).bind scan =
      some (workspace.registry.current.getD (text "nobody")) := by
  have represents := presents.refines.represents
  have bounded := represents.sound.bounded
  rcases represents.sound.current with nobody | ⟨lower, upper⟩
  · have stored : scan (constant "nobody") = some (text "nobody") := by decide
    simp [represents.nobody nobody, accountsCurrentUser, nobody, stored]
  · have inside : machine.accounts.currentAccount.toNat < fisixMaxUsers := by omega
    have below : machine.accounts.currentAccount.toNat < machine.accounts.accountCount := by omega
    have named := represents.somebody ⟨_, inside⟩ (by simp [lower])
    obtain ⟨name, _, readName, _⟩ := represents.sound.texts ⟨_, inside⟩ below
    rw [named, readName, Option.getD_some, accountsCurrentUser, if_neg (Int.not_lt.mpr lower)]
    simpa [inside, get_eq_getElem] using readName

/-- The users do not depend on the settings, and neither does their file. -/
theorem refines_same {file : File} {registry : Credentials.Registry Text Text}
    (refines : Refines file machine registry) (available : after.canLocate = machine.canLocate)
    (accounts : after.accounts = machine.accounts)
    (volume : after.firmware.1 = machine.firmware.1) : Refines file after registry := by
  obtain ⟨⟨locates, calm⟩, represents, stored⟩ := refines
  refine ⟨⟨available.trans locates, ?_⟩, ?_, ?_⟩
  · rw [volume, calm]
  · rw [accounts]
    exact represents
  · rw [accounts, volume]
    exact stored

/-- Firmware calls that leave the file of the users alone. The machine then stands for the same
registry as before. -/
theorem refines_framed {file : File} {registry : Credentials.Registry Text Text}
    (refines : Refines file machine registry) (frame : OnlyFirmware machine after)
    (faults : after.firmware.1.faults <:+ machine.firmware.1.faults)
    (same : after.firmware.1.contents file = machine.firmware.1.contents file) :
    Refines file after registry := by
  have kept := frame.accounts
  refine ⟨refines.working.after frame faults, ?_, ?_⟩
  · simpa [kept] using refines.represents
  · simpa [kept, same] using refines.stored

/-- What is displayed is shown. The machine presents the workspace with a longer screen, if its
files and accounts are the same. -/
theorem Presents.appears (presents : Presents resolve keys machine workspace) {shown : Text}
    {pieces : List Piece} (screen : Screen pieces (output machine.trace ++ shown))
    (displays : Displays shown machine after) (unasked : Ignores keys machine after) :
    Presents resolve keys after { workspace with shown := pieces } := by
  obtain ⟨frame, ⟨events, traced, shows⟩, contents, faults⟩ := displays
  have refines := refines_framed presents.refines frame faults (congrFun contents _)
  obtain ⟨firmware, trace, rfl⟩ := frame
  have screen : Screen pieces (output trace) := by
    rwa [show trace = machine.trace ++ events from traced, output_append, shows]
  exact { presents with
    refines, files := fun file apart => (congrFun contents file).trans (presents.files file apart),
    shown := screen, typed := unasked.trans presents.typed }

/-- A machine that displays a text, and takes no key for it, presents the workspace with that
text written below. -/
theorem Presents.displays (presents : Presents resolve keys machine workspace) {shown : Text}
    (displays : Displays shown machine after) (unasked : Ignores keys machine after) :
    Presents resolve keys after
      { workspace with shown := workspace.shown ++ [.written shown] } :=
  presents.appears (.more presents.shown (.written shown)) displays unasked

/-- Nothing is displayed, so the workspace is presented as before. -/
theorem Presents.quiet (presents : Presents resolve keys machine workspace)
    (displays : Displays [] machine after) (unasked : Ignores keys machine after) :
    Presents resolve keys after workspace := by
  have screen : Screen workspace.shown (output machine.trace ++ []) := by simpa using presents.shown
  exact presents.appears screen displays unasked

/-- Another content of a file, other than the one of the users. -/
theorem Presents.stores [DecidableEq File] (presents : Presents resolve keys machine workspace)
    {file : File} {content : Option (List UInt8)} (own : file ≠ resolve storeName)
    (leaves : Leaves file content machine after) (unasked : Ignores keys machine after) :
    Presents resolve keys after (workspace.put file content) := by
  obtain ⟨frame, ⟨events, traced, silent⟩, contents, faults⟩ := leaves
  have refines := refines_framed presents.refines frame faults
    ((congrFun contents _).trans (Function.update_of_ne own.symm _ _))
  obtain ⟨firmware, trace, rfl⟩ := frame
  have shown : Screen workspace.shown (output trace) := by
    rw [show trace = machine.trace ++ events from traced, output_append, silent, List.append_nil]
    exact presents.shown
  have files : ∀ other ≠ resolve storeName,
      firmware.1.contents other = (workspace.put file content).files other := by
    intro other apart
    rw [show firmware.1.contents = _ from contents, Workspace.put]
    by_cases same : other = file
    · simp [same]
    · simp [same, presents.files other apart]
  exact { presents with
    refines, files, shown, typed := unasked.trans presents.typed }

/-- An answer of the registry. The accounts have changed as the registry has, and so have the
names of the users. -/
theorem Presents.consulted (presents : Presents resolve keys machine workspace)
    (consulted : Consulted (resolve storeName) machine after)
    {registry : Credentials.Registry Text Text}
    (refines : Refines (resolve storeName) after registry) {users : List Text}
    (listed : roster after.accounts = users.map some)
    (unasked : Ignores keys machine after) :
    Presents resolve keys after { workspace with registry, users } := by
  obtain ⟨⟨firmware, trace, same⟩, ⟨events, traced, silent⟩, elsewhere⟩ := consulted
  generalize after.accounts = accounts at same listed
  subst same
  have shown : Screen workspace.shown (output trace) := by
    rw [show trace = machine.trace ++ events from traced, output_append, silent, List.append_nil]
    exact presents.shown
  exact { presents with
    refines, users := listed, shown, typed := unasked.trans presents.typed
    files := fun file apart => (elsewhere file apart).trans (presents.files file apart) }

/-- A change of the terminal is a change of the settings. What remains to be shown is that the
two changes agree. -/
theorem realizes_settings {update : TerminalStorage → TerminalStorage}
    {change : Workspace File → Workspace File}
    (changes : ∀ machine workspace, Presents resolve keys machine workspace →
      Presents resolve keys
        ({ machine with terminal := update machine.terminal } : Machine (Volume File × τ))
        (change workspace)) :
    Realizes (Presents resolve keys) (modifyTerminal update : Routine (Volume File × τ) Unit)
      (modify change : Job File Unit) := by
  rintro machine workspace presents _ _ ⟨rfl⟩
  exact ⟨_, rfl, changes machine workspace presents⟩

/-- Switching the echo of the terminal switches the echo of the workspace. -/
theorem realizes_setEcho (enabled : Bool) :
    Realizes (Presents resolve keys) (setEcho enabled : Routine (Volume File × τ) Unit)
      (modify ({ · with echo := enabled }) : Job File Unit) :=
  realizes_settings fun _ _ presents =>
    { presents with refines := refines_same presents.refines rfl rfl rfl, echo := rfl }

/-- Setting the mode also resets the echo, as entering a mode of the workspace does. -/
theorem realizes_setMode (mode : TerminalMode) :
    Realizes (Presents resolve keys) (setMode mode : Routine (Volume File × τ) Unit)
      (enterMode mode : Job File Unit) :=
  realizes_settings fun _ _ presents =>
    { presents with refines := refines_same presents.refines rfl rfl rfl, mode := rfl, echo := rfl }

/-- The letter of a drive is stored in any case, its path only if there is the drive. -/
theorem Presents.onDrive {machine : Machine (Volume File × τ)} {workspace : Workspace File}
    (presents : Presents resolve keys machine workspace) (drive : CHAR16) (letter : drive ≠ 0) :
    Presents resolve keys { machine with
      terminal := terminalSetDrive drive { machine.terminal with currentDrive := drive } }
      (workspace.onDrive drive) := by
  rw [terminalSetDrive]
  by_cases known : drive = 0x42 ∨ drive = 0x43
  · have path := scan_drivePath letter machine.terminal.currentPath
    rw [if_pos known]
    exact { presents with
      refines := refines_same presents.refines rfl rfl rfl, letter, drive := rfl,
      path := by simpa [Workspace.onDrive, known] using path }
  · have path := presents.path
    rw [if_neg known]
    exact { presents with
      refines := refines_same presents.refines rfl rfl rfl, letter, drive := rfl,
      path := by simpa [Workspace.onDrive, known] using path }

/-- A drive is not a terminator. -/
theorem driveOf_letter {word : Text} {drive : CHAR16} (found : driveOf word = some drive) :
    drive ≠ 0 := by
  rcases word with _ | ⟨letter, _ | ⟨colon, rest⟩⟩
  · cases found
  · cases found
  · rw [driveOf, Option.ite_none_right_eq_some, Option.some.injEq] at found
    obtain ⟨⟨low, _⟩, rfl⟩ := found
    rintro rfl
    exact absurd low (by decide)

end Presents

variable {File τ : Type} [DecidableEq File] {resolve : Text → File} {device : Firmware τ}
  {keys : Volume File × τ → List CHAR16} (keyboard : Keyboard (Volume.firmware resolve device) keys)
include keyboard

/-! ## Showing -/

/-- Writing is showing. Every routine that only writes realizes the job that shows the same. -/
theorem realizes_shows {texts : List Text} {shown : Text} {α : Type} {value : α}
    {routine : Routine (Volume File × τ) α}
    (showing : Shows (Volume.firmware resolve device) texts value routine)
    (flat : texts.flatten = shown) :
    Realizes (Presents resolve keys) routine (do appear shown; return value : Job File α) := by
  apply realizes_update
  intro machine workspace presents
  exact ⟨_, showing machine, flat ▸ presents.displays
    (displays_afterWrites resolve device presents.writes texts) (keyboard.unspent machine texts)⟩

/-- A line of the source is told, with its line end. -/
theorem realizes_say {message : String} (free : (0 : CHAR16) ∉ text message) :
    Realizes (Presents resolve keys) (say (Volume.firmware resolve device) message)
      (tell (text message) : Job File Unit) :=
  realizes_shows keyboard (shows_say free) (by simp)

/-- A reply is a told line, after which the terminal goes on. -/
theorem realizes_reply {message : String} (free : (0 : CHAR16) ∉ text message) :
    Realizes (Presents resolve keys) (reply (Volume.firmware resolve device) message)
      (tellThat message : Job File Bool) :=
  (realizes_say keyboard free).bind fun _ => realizes_pure false

/-- The usage is told exactly where the command was not done. -/
theorem realizes_orUsage {usage : String} (free : (0 : CHAR16) ∉ text usage) (done : Bool) :
    Realizes (Presents resolve keys) (orUsage (Volume.firmware resolve device) done usage)
      (tellUsage usage done : Job File Bool) := by
  cases done with
  | true => exact realizes_pure false
  | false => exact realizes_reply keyboard free

/-- A string in memory is written as a line, whatever follows it in memory. -/
theorem realizes_writeLine {memory : Memory} {shown : Text} (readable : scan memory = some shown) :
    Realizes (Presents resolve keys) (terminalWriteLine (Volume.firmware resolve device) memory)
      (tell shown : Job File Unit) := by
  rw [(terminalWriteLine_reads _).same readable]
  have free := (scan_split memory shown readable).1
  exact realizes_shows keyboard (shows_terminalWriteLine free) (by simp)

/-! ## Drives -/

/-- `cd` shows the path of the drive, behind a message where it has named one. -/
theorem realizes_changeDirectory (words : List Text) :
    Realizes (Presents resolve keys) (changeDirectory (Volume.firmware resolve device) words)
      (directoryJob words : Job File Bool) := by
  have pathShown : Realizes (Presents resolve keys) (do
      let machine ← get
      terminalWriteFieldLine (Volume.firmware resolve device) machine.terminal.currentPath.toList
      return false) (do
      let workspace ← get
      tell workspace.path
      return false : Job File Bool) := by
    apply realizes_view
    intro machine workspace presents
    have showing := shows_writeFieldLine (Volume.firmware resolve device) presents.path
    exact (realizes_shows keyboard (showing.then (shows_pure false)) (by simp)) machine
      workspace presents
  rw [changeDirectory, changeDrive_words, directoryJob]
  cases found : words[1]?.bind driveOf with
  | none => exact pathShown
  | some drive =>
    have letter : drive ≠ 0 := by
      obtain ⟨word, _, named⟩ := Option.bind_eq_some_iff.mp found
      exact driveOf_letter named
    have message : (0 : CHAR16) ∉ text "drive set to" := by decide
    have moves : Realizes (Presents resolve keys)
        (modifyTerminal fun terminal =>
          terminalSetDrive drive { terminal with currentDrive := drive })
        (modify (·.onDrive drive) : Job File Unit) :=
      realizes_settings fun (machine : Machine (Volume File × τ)) _ presents =>
        presents.onDrive drive letter
    simp only [bind_assoc, pure_bind, if_true]
    exact moves.bind fun _ => (realizes_say keyboard message).bind fun _ => pathShown

/-! ## Words and users -/

/-- `echo` shows its words on a line, joined by single spaces. -/
theorem realizes_echo {words : List Text} (free : ∀ word ∈ words, (0 : CHAR16) ∉ word) :
    Realizes (Presents resolve keys) (do
        terminalWriteArgList (Volume.firmware resolve device) false words
        reply (Volume.firmware resolve device) "")
      (do tell (joined space words); return false : Job File Bool) := by
  obtain ⟨texts, showing, flat⟩ := shows_echo (Volume.firmware resolve device) free
  exact realizes_shows keyboard showing flat

/-- `grep` shows the words that contain its pattern, each on a line. -/
theorem realizes_grepWords {words : List Text} (free : ∀ word ∈ words, (0 : CHAR16) ∉ word) :
    Realizes (Presents resolve keys) (grepWords (Volume.firmware resolve device) words)
      (searchJob words : Job File Bool) := by
  have usage : (0 : CHAR16) ∉ text "usage: grep <pattern> <text>" := by decide
  rcases words with _ | ⟨name, _ | ⟨pattern, _ | ⟨word, rest⟩⟩⟩
  · exact realizes_reply keyboard usage
  · exact realizes_reply keyboard usage
  · exact realizes_reply keyboard usage
  · have searchedFree : ∀ found ∈ word :: rest, (0 : CHAR16) ∉ found := fun found member =>
      free found (List.mem_cons_of_mem _ (List.mem_cons_of_mem _ member))
    obtain ⟨texts, showing, flat⟩ := shows_matching (Volume.firmware resolve device)
      (free pattern (by simp)) searchedFree
    have searches : Shows (Volume.firmware resolve device) texts false
        (grepWords (Volume.firmware resolve device) (name :: pattern :: word :: rest)) := by
      have long : ¬ (name :: pattern :: word :: rest).length < 3 := by simp
      have set : (argument (name :: pattern :: word :: rest) 1 : Routine (Volume File × τ) Memory) =
          pure (pattern ++ [0]) := rfl
      have continued := showing.then (shows_pure false)
      rw [List.append_nil] at continued
      rw [grepWords, if_neg long, set, pure_bind]
      exact shows_view fun _ => continued
    exact realizes_shows keyboard searches flat

/-- `whoami` shows the name of the current user, or that there is nobody. -/
theorem realizes_showUser :
    Realizes (Presents resolve keys) (showUser (Volume.firmware resolve device))
      (userJob : Job File Bool) := by
  apply realizes_view
  intro machine workspace presents value after' ran
  obtain ⟨memory, found, readable⟩ := Option.bind_eq_some_iff.mp presents.user
  have showing := (shows_writeFieldLine (Volume.firmware resolve device) readable).then
    (shows_pure false)
  have run : (showUser (Volume.firmware resolve device)).run machine =
      (do
        terminalWriteFieldLine (Volume.firmware resolve device) memory
        return false : Routine (Volume File × τ) Bool).run machine := by
    have entered : (get : Routine (Volume File × τ) _).run machine = .ok (machine, machine) := rfl
    rw [showUser, run_bind_of_ok entered, found]
    rfl
  rw [run]
  exact realizes_shows keyboard showing (by simp) machine workspace presents value after' ran

/-- `users` shows the names of all users, in the order in which they were added. -/
theorem realizes_showUsers :
    Realizes (Presents resolve keys) (showUsers (Volume.firmware resolve device))
      (usersJob : Job File Bool) := by
  apply realizes_view
  intro machine workspace presents value after' ran
  obtain ⟨texts, showing, flat⟩ := shows_users (Volume.firmware resolve device) presents.users
  have lists := showing.then (shows_pure false)
  rw [List.append_nil] at lists
  have run : (showUsers (Volume.firmware resolve device)).run machine = (do
      (List.range (accountsCount machine.accounts)).forM fun index => do
        terminalWriteFieldLine (Volume.firmware resolve device)
          (← orFault (accountsUserAt machine.accounts index))
      return false : Routine (Volume File × τ) Bool).run machine := rfl
  rw [run]
  exact realizes_shows keyboard lists flat machine workspace presents value after' ran

/-! ## Files -/

omit keyboard in

/-- The file of the users is not described, so a command on it is not promised anything. -/
theorem realizes_onFileOf {path : Text} {α : Type} {routine : Routine (Volume File × τ) α}
    {job : File → Job File α} (realized : resolve path ≠ resolve storeName →
      Realizes (Presents resolve keys) routine (job (resolve path))) :
    Realizes (Presents resolve keys) routine (onFileOf resolve path job) := by
  rw [onFileOf]
  exact realizes_unless Beyond.undescribed realized

/-- A command with a path applies to the file of the path. Other numbers of words are answered by
the usage on both sides. -/
theorem realizes_onFile {words : List Text} (free : ∀ word ∈ words, (0 : CHAR16) ∉ word)
    {command : Memory → Routine (Volume File × τ) Bool} {job : File → Job File Bool}
    (realized : ∀ path, (0 : CHAR16) ∉ path → resolve path ≠ resolve storeName →
      Realizes (Presents resolve keys) (command (path ++ [0])) (job (resolve path)))
    {usage : String} (usageFree : (0 : CHAR16) ∉ text usage) :
    Realizes (Presents resolve keys) (onFile (Volume.firmware resolve device) words command usage)
      (onPath resolve job usage words) := by
  rcases words with _ | ⟨name, _ | ⟨path, _ | ⟨word, rest⟩⟩⟩
  · exact realizes_reply keyboard usageFree
  · exact realizes_reply keyboard usageFree
  · have set : (argument [name, path] 1 : Routine (Volume File × τ) Memory) =
        pure (path ++ [0]) := rfl
    have two : [name, path].length = 2 := rfl
    rw [onFile, if_pos two, set, pure_bind, onPath]
    exact (realizes_onFileOf (realized path (free path (by simp)))).bind fun done =>
      realizes_orUsage keyboard usageFree done
  · have many : ¬ (name :: path :: word :: rest).length = 2 := by simp
    rw [onFile, if_neg many, onPath]
    · exact realizes_reply keyboard usageFree
    · simp

/-- `touch` is what the workspace says of touching, on every file but the store. The store is
left out because its content is the users. -/
theorem realizes_touch {path : Text} (free : (0 : CHAR16) ∉ path)
    (own : resolve path ≠ resolve storeName) :
    Realizes (Presents resolve keys)
      (terminalTouchFile (Volume.firmware resolve device) (path ++ [0]))
      (touchFile (resolve path)) := by
  apply realizes_update
  intro machine workspace presents
  obtain ⟨after, ran, leaves⟩ := run_terminalTouchFile resolve device (scan_append path [] free)
    presents.calm presents.locates
  have unasked := (keyboard.ignores_touch _).related machine true after ran
  rw [presents.files _ own] at leaves
  exact ⟨after, ran, presents.stores own leaves unasked⟩

/-- `rm` is what the workspace says of removing. A missing file is refused on both sides, and
nothing is shown. -/
theorem realizes_remove {path : Text} (free : (0 : CHAR16) ∉ path)
    (own : resolve path ≠ resolve storeName) :
    Realizes (Presents resolve keys)
      (terminalRemoveFile (Volume.firmware resolve device) (path ++ [0]))
      (removeFile (resolve path)) := by
  apply realizes_view
  rintro machine workspace presents value after' ran
  have readable := scan_append path [] free
  cases stored : workspace.files (resolve path) with
  | none =>
    rw [stored] at ran
    cases ran
    obtain ⟨after, fails, displays⟩ := run_terminalRemoveFile_missing resolve device readable
      ((presents.files _ own).trans stored)
    have unasked := (keyboard.ignores_remove _).related machine false after fails
    exact ⟨after, fails, presents.quiet displays unasked⟩
  | some content =>
    rw [stored] at ran
    cases ran
    obtain ⟨after, removes, leaves⟩ := run_terminalRemoveFile resolve device readable
      presents.calm presents.locates (by rw [presents.files _ own, stored]; rfl)
    have unasked := (keyboard.ignores_remove _).related machine true after removes
    exact ⟨after, removes, presents.stores own leaves unasked⟩

/-- `cat` is what the workspace says of showing a file, with the same fuel. A missing file is
refused on both sides. -/
theorem realizes_cat (fuel : Nat) {path : Text} (free : (0 : CHAR16) ∉ path)
    (own : resolve path ≠ resolve storeName) :
    Realizes (Presents resolve keys)
      (terminalCatFile (Volume.firmware resolve device) fuel (path ++ [0]))
      (showFile fuel (resolve path)) := by
  apply realizes_view
  rintro machine workspace presents value after' ran
  have readable := scan_append path [] free
  cases stored : workspace.files (resolve path) with
  | none =>
    rw [stored] at ran
    cases ran
    obtain ⟨after, fails, displays⟩ := run_terminalCatFile_missing resolve device readable fuel
      ((presents.files _ own).trans stored)
    have unasked := (keyboard.ignores_cat fuel _).related machine false after fails
    exact ⟨after, fails, presents.quiet displays unasked⟩
  | some content =>
    rw [stored] at ran
    by_cases enough : content.length / catBufferSize < fuel
    · simp only [if_pos enough] at ran
      cases ran
      obtain ⟨after, catRuns, displays⟩ := run_terminalCatFile resolve device readable enough
        presents.calm presents.locates presents.writes ((presents.files _ own).trans stored)
      have unasked := (keyboard.ignores_cat fuel _).related machine true after catRuns
      exact ⟨after, catRuns, presents.displays displays unasked⟩
    · simp only [if_neg enough] at ran
      cases ran

/-- `write` and `append` store the words behind the path, on every file but the one of the users. -/
theorem realizes_store {name path word : Text} {rest : List Text}
    (solid : ∀ unit ∈ name, unit ≠ 0 ∧ unit ≠ space) (pathFree : (0 : CHAR16) ∉ path)
    (free : ∀ stored ∈ word :: rest, (0 : CHAR16) ∉ stored)
    (room : ((word :: rest).map (·.length + 1)).sum < terminalMaxLine) :
    Realizes (Presents resolve keys)
      (storeWordsOf (Volume.firmware resolve device) (name :: path :: word :: rest))
      (storeJob resolve (name :: path :: word :: rest)) := by
  have named : (0 : CHAR16) ∉ text "append" := by decide
  have called : (isCall true (name :: path :: word :: rest) "append" :
      Routine (Volume File × τ) Bool) = pure (decide (name = text "append")) :=
    isCall_first _ solid named
  have long : (name :: path :: word :: rest).length ≥ 3 := by simp
  have set : (argument (name :: path :: word :: rest) 1 : Routine (Volume File × τ) Memory) =
      pure (path ++ [0]) := rfl
  rw [storeWordsOf, called, pure_bind, if_pos long, set, pure_bind, storeJob]
  apply realizes_onFileOf
  intro own
  apply realizes_update
  intro machine workspace presents
  obtain ⟨after, ran, leaves⟩ := run_terminalWriteFile resolve device (scan_append path [] pathFree)
    free (List.cons_ne_nil word rest) room (decide (name = text "append")) presents.calm
    presents.locates
  have stored : storedContent Fault.absent Fault.absent (decide (name = text "append"))
      (workspace.content (resolve path)) (lineOf (word :: rest)) =
      if decide (name = text "append") = true then
        workspace.content (resolve path) ++ lineOf (word :: rest)
      else lineOf (word :: rest) ++
        (workspace.content (resolve path)).drop (lineOf (word :: rest)).length := by
    cases decide (name = text "append") with
    | true => exact overlay_end _ _
    | false => exact overlay_start _ _
  have same : (machine.firmware.1.contents (resolve path)).getD [] =
      workspace.content (resolve path) := by rw [presents.files _ own, Workspace.content]
  rw [same, stored] at leaves
  have unasked := (keyboard.ignores_write _ _ _).related machine true after ran
  refine ⟨after, ?_, presents.stores own leaves unasked⟩
  have entered : (get : Routine (Volume File × τ) _).run machine = .ok (machine, machine) := rfl
  rw [run_bind_of_ok entered]
  exact (run_bind_of_ok ran).trans rfl

/-- `write` and `append` with too few words tell how they are used. -/
theorem realizes_storeWords {words : List Text} (nonempty : words ≠ [])
    (solid : ∀ word ∈ words, ∀ unit ∈ word, unit ≠ 0 ∧ unit ≠ space)
    (room : (words.map (·.length + 1)).sum ≤ terminalMaxLine) :
    Realizes (Presents resolve keys) (storeWordsOf (Volume.firmware resolve device) words)
      (storeJob resolve words : Job File Bool) := by
  have usage : (0 : CHAR16) ∉ text "usage: write|append <file> <text" := by decide
  have named : (0 : CHAR16) ∉ text "append" := by decide
  obtain ⟨name, rest, rfl⟩ := List.exists_cons_of_ne_nil nonempty
  have free : ∀ word ∈ name :: rest, (0 : CHAR16) ∉ word := fun word member zero =>
    (solid word member 0 zero).1 rfl
  by_cases long : (name :: rest).length ≥ 3
  · obtain ⟨path, word, others, rfl⟩ : ∃ path word others, rest = path :: word :: others := by
      rcases rest with _ | ⟨path, _ | ⟨word, others⟩⟩
      · simp at long
      · simp at long
      · exact ⟨path, word, others, rfl⟩
    rw [List.map_cons, List.sum_cons, List.map_cons, List.sum_cons] at room
    exact realizes_store keyboard (solid name (by simp)) (free path (by simp))
      (fun stored member => free stored (by simp_all)) (by omega)
  · have called : (isCall true (name :: rest) "append" : Routine (Volume File × τ) Bool) =
        pure (decide (name = text "append")) := isCall_first _ (solid name (by simp)) named
    rw [storeWordsOf, called, pure_bind, if_neg long]
    rcases rest with _ | ⟨path, _ | ⟨word, others⟩⟩
    · exact realizes_reply keyboard usage
    · exact realizes_reply keyboard usage
    · simp at long

/-! ## Scripts -/

omit [DecidableEq File] keyboard in

/-- The lines of a script are run up to their first zeros, in turn, as the job runs them. -/
theorem realizes_runEach {execute : Memory → Routine (Volume File × τ) Bool}
    {run : Text → Job File Bool} {lines : List Text}
    (realized : ∀ command line, scan command = some line → line.length < terminalMaxLine →
      Realizes (Presents resolve keys) (execute command) (run line))
    (short : ∀ line ∈ lines, line.length < terminalMaxLine) :
    Realizes (Presents resolve keys) (runEach (pure ()) execute lines)
      ((lines.map (·.takeWhile (· ≠ 0))).forM fun line => do
        let _ ← run line
        return ()) := by
  have each : ((lines.map (·.takeWhile (· ≠ 0))).forM fun line => do
        let _ ← run line
        return ()) = lines.forM (fun line => do
        let _ ← run (line.takeWhile (· ≠ 0))
        return () : Text → Job File Unit) := List.forM_map ..
  rw [each]
  apply realizes_forM
  intro line member
  have fits : (line.takeWhile (· ≠ 0)).length < terminalMaxLine :=
    ((List.takeWhile_prefix _).length_le).trans_lt (short line member)
  rw [pure_bind]
  exact (realized (line ++ [0]) _ (scan_cut line) fits).bind fun _ => realizes_pure ()

/-- `source` runs the lines of the file in the workspace, if each command runs as the workspace
says. A missing script is refused on both sides. -/
theorem realizes_source {execute : Memory → Routine (Volume File × τ) Bool}
    {run : Text → Job File Bool}
    (realized : ∀ command line, scan command = some line → line.length < terminalMaxLine →
      Realizes (Presents resolve keys) (execute command) (run line)) {path : Text}
    (free : (0 : CHAR16) ∉ path) (own : resolve path ≠ resolve storeName) :
    Realizes (Presents resolve keys)
      (terminalSourceFile (Volume.firmware resolve device) execute (path ++ [0]))
      (runFile run (resolve path)) := by
  apply realizes_view
  rintro machine workspace presents value after' ran
  have readable := scan_append path [] free
  cases stored : workspace.files (resolve path) with
  | none =>
    rw [stored] at ran
    cases ran
    obtain ⟨after, fails, displays, kept⟩ := run_terminalSourceFile_missing resolve device execute
      readable ((presents.files _ own).trans stored)
    have unasked : Ignores keys machine after := kept _ keyboard.frame_untouched.toQuietFrame
    exact ⟨after, fails, presents.quiet displays unasked⟩
  | some content =>
    rw [stored] at ran
    obtain ⟨loaded, displays, kept, sources⟩ := run_terminalSourceFile_calm resolve device execute
      readable presents.calm presents.locates ((presents.files _ own).trans stored)
    have unasked : Ignores keys machine loaded := kept _ keyboard.frame_untouched.toQuietFrame
    have still := presents.quiet displays unasked
    have short : ∀ line ∈ (scriptLines (content.take (scriptBufferSize - 1))).map cutLine,
        line.length < terminalMaxLine := by
      simp only [List.mem_map]
      rintro _ ⟨line, _, rfl⟩
      exact cutLine_length line
    rw [sources]
    exact ((realizes_runEach realized short).bind fun _ => realizes_pure true) loaded workspace
      still value after' ran

end ExistentOS.Terminal
