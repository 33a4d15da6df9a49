import ExistentOS.Terminal.Authorization

/-!
# The current drive

The letter of the drive and its path are two static variables. `cd`, `dir` and `ls` store the
letter that they are given before it is validated, and `terminal_set_drive` ignores the letters
of other drives: such a letter parts the two variables. As long as none is named, they agree.
-/

namespace ExistentOS.Terminal

open Programs Terminated Accounts

variable {σ : Type} {fw : Firmware σ}

/-! ## Agreement -/

/-- The drives that there are. -/
abbrev IsDrive (drive : CHAR16) : Prop := drive = 0x42 ∨ drive = 0x43

/-- The drive is one that there is, and the path is that of the drive. -/
structure DriveAgrees (terminal : TerminalStorage) : Prop where
  drive : IsDrive terminal.currentDrive
  path : scan terminal.currentPath.toList = some (terminal.currentDrive :: text ":/")

/-- The path of a drive is read back from its buffer. -/
theorem scan_drivePath {drive : CHAR16} (solid : drive ≠ 0) (buffer : Vector CHAR16 128) :
    scan (drivePath drive buffer).toList = some (drive :: text ":/") := by
  have length : buffer.toList.length = 128 := Vector.length_toList
  have stored : (drivePath drive buffer).toList =
      (((buffer.toList.set 0 drive).set 1 0x3A).set 2 0x2F).set 3 0 := by
    simp only [drivePath, Vector.toList_set]
  rw [stored]
  generalize buffer.toList = units at length
  rcases units with _ | ⟨_, _ | ⟨_, _ | ⟨_, _ | ⟨_, rest⟩⟩⟩⟩
  · cases length
  · cases length
  · cases length
  · cases length
  · exact scan_append (drive :: text ":/") rest (by simpa [Ne.symm solid] using by decide)

/-- The terminal starts on a drive that its path shows. -/
theorem initialTerminal_agrees : DriveAgrees initialTerminal :=
  ⟨Or.inl rfl, scan_drivePath (by decide) (blankField 128)⟩

/-- Behind storing a letter and setting the drive, both agree exactly for the drives that there
are. -/
theorem terminalSetDrive_agrees (terminal : TerminalStorage) (drive : CHAR16) :
    DriveAgrees (terminalSetDrive drive { terminal with currentDrive := drive }) ↔ IsDrive drive := by
  by_cases known : IsDrive drive
  · have solid : drive ≠ 0 := by
      rintro rfl
      exact absurd known (by decide)
    rw [terminalSetDrive, if_pos known]
    exact iff_of_true ⟨known, scan_drivePath solid _⟩ known
  · rw [terminalSetDrive, if_neg known]
    exact iff_of_false (fun kept => known kept.drive) known

/-! ## Named drives -/

/-- The drive that a word names with its first two units. -/
def namedDrive (word : Text) : Option CHAR16 := (terminalDrivePrefix (word ++ [0])).getD none

/-- The event is a `cd`, `dir` or `ls` whose first argument names another drive. -/
def namesOther : Event → Bool
  | .command name words => ["cd", "dir", "ls"].any (text · = name) &&
      (words[1]?.bind namedDrive).any fun drive => ¬ IsDrive drive
  | _ => false

/-- No command names another drive, that is, a letter other than those of the two drives. -/
def NoOtherDrive (events : List Event) : Prop := ∀ event ∈ events, namesOther event = false

instance (events : List Event) : Decidable (NoOtherDrive events) :=
  inferInstanceAs (Decidable (∀ event ∈ events, namesOther event = false))

instance : Hereditary NoOtherDrive :=
  ⟨fun within none event member => none event (within member)⟩

/-! ## Frames -/

/-- The drive and the path stay as they are. -/
def SameDrive (before after : Machine σ) : Prop :=
  after.terminal.currentDrive = before.terminal.currentDrive ∧
    after.terminal.currentPath = before.terminal.currentPath

instance : Std.Refl (SameDrive (σ := σ)) := ⟨fun _ => ⟨rfl, rfl⟩⟩

instance : IsTrans (Machine σ) SameDrive :=
  ⟨fun _ _ _ early late => ⟨late.1.trans early.1, late.2.trans early.2⟩⟩

/-- The drive and the path agree if they agreed before. -/
def StaysAgreed (before after : Machine σ) : Prop :=
  DriveAgrees before.terminal → DriveAgrees after.terminal

instance : Std.Refl (StaysAgreed (σ := σ)) := ⟨fun _ agrees => agrees⟩

instance : IsTrans (Machine σ) StaysAgreed := ⟨fun _ _ _ early late agrees => late (early agrees)⟩

instance : LineBlind (StaysAgreed (σ := σ)) := ⟨fun _ staysAgreed agrees =>
  ⟨(staysAgreed agrees).drive, (staysAgreed agrees).path⟩⟩

/-- Where drive and path are the same, they agree as before. -/
theorem SameDrive.staysAgreed {before after : Machine σ} (same : SameDrive before after) :
    StaysAgreed before after := by
  intro agrees
  constructor
  · rw [same.1]
    exact agrees.drive
  · rw [same.1, same.2]
    exact agrees.path

instance (fw : Firmware σ) : StorageFrame fw (SameDrive (σ := σ)) := by
  have frame : CallFrame fw (SameDrive (σ := σ)) :=
    callFrame_modes (fun _ _ _ _ => ⟨rfl, rfl⟩)
      (fun machine _ only => ⟨only.drive machine.terminal, only.path machine.terminal⟩) fw
  constructor
  · exact fun _ => keeps_modify fun _ => ⟨rfl, rfl⟩
  · exact fun _ => keeps_modify fun _ => ⟨rfl, rfl⟩

/-- The relation of the interpreter: as long as no command names another drive, the drive and the
path agree. -/
abbrev DriveKept : Machine σ → Machine σ → Prop := Provided NoOtherDrive StaysAgreed

instance (fw : Firmware σ) : CallFrame fw (DriveKept (σ := σ)) :=
  callFrame_modes (fun _ _ event _ => ⟨[event], rfl, fun _ agrees => agrees⟩)
    (fun machine _ only => ⟨[], (List.append_nil machine.trace).symm, fun _ =>
      SameDrive.staysAgreed ⟨only.drive machine.terminal, only.path machine.terminal⟩⟩) fw

/-- What leaves the drive and the path alone keeps them in agreement. -/
theorem driveKept_same {α : Type} {routine : Routine σ α}
    (traced : Keeps (Emits fun _ => True) routine) (same : Keeps SameDrive routine) :
    Keeps DriveKept routine :=
  keeps_provided traced fun machine result after _ ran _ _ =>
    (same.related machine result after ran).staysAgreed

/-- What is composed of quiet steps and of changes of the storage keeps the agreement. -/
theorem driveKept_composed {α : Type} {routine : Routine σ α}
    (composed : Composed fw (fun _ => True) (StorageStep fw) routine) : Keeps DriveKept routine := by
  have frame : StorageFrame fw (Emits fun _ => True) := storageFrame_emits (fun _ _ => trivial) fw
  exact driveKept_same composed.keepsStorage composed.keepsStorage

/-- Recording a command keeps drive and path. Where the command was `cd`, `dir` or `ls` with
another drive, the run is out of the condition from here on. -/
theorem driveKept_record (name : String) (argv : List Text) :
    Keeps (DriveKept (σ := σ)) (record name argv) :=
  driveKept_same (emits_record name argv)
    (keeps_bind keeps_get fun _ => keeps_modify fun _ => ⟨rfl, rfl⟩)

/-! ## Commands that set the drive -/

/-- A change of the drive stores the letter that is named, if there is one. -/
theorem wp_changeDrive (argv : List Text) (machine : Machine σ) :
    wp (changeDrive argv) (fun changed after => (changed = false ∧ after = machine) ∨
      ∃ word ∈ argv[1]?, ∃ drive ∈ namedDrive word, after = { machine with
        terminal := terminalSetDrive drive { machine.terminal with currentDrive := drive } })
      (fun _ => True) machine := by
  rw [changeDrive, wp_ite, wp_pure, wp_bind, argument, wp_bind, wp_orOverrun]
  refine ⟨fun _ => ⟨fun word found => ?_, fun _ => trivial⟩, fun _ => Or.inl ⟨rfl, rfl⟩⟩
  rw [wp_bind, wp_get, wp_pure, wp_bind, wp_orOverrun]
  refine ⟨fun named prefixed => ?_, fun _ => trivial⟩
  cases named with
  | none => exact Or.inl ⟨rfl, rfl⟩
  | some drive =>
    refine Or.inr ⟨word, found, drive, ?_, rfl⟩
    exact congrArg (Option.getD · none) prefixed

/-- The recorded word names the same drive. -/
theorem namedDrive_recorded (terminal : TerminalStorage) {argv : List Text} {word : Text}
    (found : word ∈ argv[1]?) :
    ∃ shown ∈ (wordsOf terminal argv)[1]?, namedDrive shown = namedDrive word := by
  have ends : (0 : CHAR16) ∈ word ++ [0] := List.mem_append_right word List.mem_cons_self
  obtain ⟨shown, readable⟩ := Option.ne_none_iff_exists'.mp (scan_ends ends)
  refine ⟨shown, ?_, ?_⟩
  · have recorded : (scan (Word.memory terminal word)).getD [] = shown :=
      congrArg (Option.getD · []) readable
    rw [wordsOf, List.getElem?_map, Option.mem_def.mp found, ← recorded]
    rfl
  · exact congrArg (Option.getD · none) (terminalDrivePrefix_reads.same readable).symm

/-- A command that sets the drive and goes on quietly keeps the agreement unless it names another
drive. -/
theorem driveKept_change (fw : Firmware σ) {name : String} (member : name ∈ ["cd", "dir", "ls"])
    (argv : List Text) {rest : Bool → Routine σ Bool}
    (quiet : ∀ changed, Composed fw (fun _ => True) (StorageStep fw) (rest changed)) :
    Keeps DriveKept (do record name argv; let changed ← changeDrive argv; rest changed) := by
  have effects : Composed fw (fun _ => True) (CommandEffect fw)
      (do let changed ← changeDrive argv; rest changed) :=
    Composed.bind (composed_changeDrive CommandEffect.setDrive argv) fun changed =>
      (quiet changed).mono (fun _ allowed => allowed)
        fun _ _ named => Composed.further (CommandEffect.storage named)
  refine keeps_recorded (emits_composed effects) ?_
  intro machine result after events ran _ none agrees
  obtain ⟨changed, middle, setting, behind⟩ := (run_bind_ok _ _ _ _).mp ran
  have same : SameDrive middle after :=
    (quiet changed).keepsStorage.related middle result after behind
  refine same.staysAgreed ?_
  rcases ((wp_iff _ _ _ _).mp (wp_changeDrive argv _)).1 changed middle setting with
    ⟨_, rfl⟩ | ⟨word, found, drive, named, rfl⟩
  · exact agrees
  · refine (terminalSetDrive_agrees machine.terminal drive).mpr ?_
    by_contra other
    obtain ⟨shown, recorded, sameDrive⟩ := namedDrive_recorded machine.terminal found
    have unnamed := none _ List.mem_cons_self
    have listed : ["cd", "dir", "ls"].any (text · = text name) = true :=
      List.any_eq_true.mpr ⟨name, member, decide_eq_true rfl⟩
    rw [namesOther, listed, Option.mem_def.mp recorded, Option.bind_some, sameDrive,
      Option.mem_def.mp named, Option.any_some, decide_eq_true other] at unnamed
    cases unnamed

/-- All commands that do more keep the agreement. -/
theorem driveKept_commandStep (α : Type) (routine : Routine σ α) (named : CommandStep fw α routine) :
    Keeps DriveKept routine := by
  have files : ∀ (α : Type) (step : Routine σ α), FileStep fw α step → StorageStep fw α step :=
    fun _ _ named => StorageStep.file named
  have storage : ∀ (α : Type) (step : Routine σ α), StorageStep fw α step → StorageStep fw α step :=
    fun _ _ named => named
  have behind : ∀ {name : String} {argv : List Text} {run : Routine σ Bool},
      Composed fw (fun _ => True) (StorageStep fw) run → Keeps DriveKept (do record name argv; run) :=
    fun composed => keeps_bind (driveKept_record _ _) fun _ => driveKept_composed composed
  cases named with
  | record name argv => exact driveKept_record name argv
  | remove argv =>
    exact behind (composed_onFile argv _ fun _ ends => composed_terminalRemoveFile files (Or.inl ends))
  | store name member argv nonempty => exact behind (composed_storeWordsOf files nonempty)
  | list name member argv =>
    refine driveKept_change fw (List.mem_cons_of_mem "cd" member) argv fun _ => ?_
    exact Composed.view (fun _ _ => rfl) fun machine =>
      Composed.bind (composed_terminalShowDriveRoot trivial _) fun _ => Composed.pure false
  | directory argv =>
    have shown : Composed fw (fun _ => True) (StorageStep fw) (do
        let machine ← get
        terminalWriteFieldLine fw machine.terminal.currentPath.toList
        return false) :=
      Composed.view (fun _ _ => rfl) fun _ => Composed.bind
        (composed_terminalWriteFieldLine (Or.inr trivial)) fun _ => Composed.pure false
    refine driveKept_change fw List.mem_cons_self argv fun changed => ?_
    exact Composed.ite (fun _ => Composed.bind (composed_say _) fun _ => shown) fun _ => shown
  | add argv =>
    exact behind (composed_addUser argv fun _ _ _ => composed_accountsAdd storage (Or.inr trivial))
  | change fuel argv =>
    exact behind (Composed.bind (composed_changePassword trivial fuel fun _ _ _ =>
      composed_accountsChangePassword storage (Or.inr trivial)) fun _ => Composed.pure false)
  | login fuel argv =>
    exact behind (Composed.bind (composed_terminalLogin trivial fuel fun _ _ _ =>
      composed_accountsLogin storage (Or.inr trivial)) fun _ => Composed.pure false)

/-! ## Sessions -/

/-- The drive and its path agree in every state that is reached from the initial one by command
lines, nested ones included, none of which dispatches a `cd`, `dir` or `ls` that names another
drive. The letter is stored before it is looked at, and the path is not. -/
theorem drive_agrees (fw : Firmware σ) (fuel : Nat) (lines : List Memory)
    {machine after : Machine σ} {results : List Bool} {events : List Event}
    (initial : machine.terminal = initialTerminal)
    (ran : (runCommands fw fuel lines).run machine = .ok (results, after))
    (traced : after.trace = machine.trace ++ events) (none : NoOtherDrive events) :
    DriveAgrees after.terminal := by
  have kept : Keeps DriveKept (runCommands fw fuel lines) :=
    keeps_mapM lines _ fun command _ =>
      keeps_terminalExecuteCommand driveKept_commandStep fuel command
  have agreed := provided_events (kept.related machine results after ran) traced none
  exact agreed (initial ▸ initialTerminal_agrees)

/-- The machine after some command lines on a firmware without files. -/
def ranLines (lines : List Memory) : Machine Unit :=
  finalState (runCommands Firmware.inert 3 lines) (Machine.entered ())

/-- Lines that change between the two drives, or ask for something that is not a drive. -/
def knownLines : List Memory :=
  [constant "cd C:", constant "ls & cd x", constant "dir B:"]

/-- After lines that change to the drives there are, or name none, the path shows the drive. -/
theorem drive_agrees_known : DriveAgrees (ranLines knownLines).terminal := by
  have ran : (runCommands Firmware.inert 3 knownLines).run (Machine.entered ()) =
      .ok ([false, false, false], ranLines knownLines) :=
    run_finalState (by decide +kernel)
  have traced : (ranLines knownLines).trace =
      (Machine.entered ()).trace ++ (ranLines knownLines).trace :=
    (List.nil_append _).symm
  have none : NoOtherDrive (ranLines knownLines).trace := by decide +kernel
  exact drive_agrees Firmware.inert 3 knownLines rfl ran traced none

/-- A drive that does not exist is stored, and the path stays as it was. -/
theorem drive_parted :
    (runCommands Firmware.inert 3 [constant "cd A:"]).run (Machine.entered ()) =
        .ok ([false], ranLines [constant "cd A:"]) ∧
      ¬ DriveAgrees (ranLines [constant "cd A:"]).terminal := by
  have letter : ¬ IsDrive (ranLines [constant "cd A:"]).terminal.currentDrive := by decide +kernel
  exact ⟨run_finalState (by decide +kernel), fun agrees => letter agrees.drive⟩

end ExistentOS.Terminal
