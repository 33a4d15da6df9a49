import ExistentOS.Boot.Main
import ExistentOS.Terminal.CarriedOut

/-!
# One boot after the other

What `efi_main` is for, in the terms of the shell's user: a boot runs the lines of the start, lets
somebody in and carries out lines until the shell is left. The files and the accounts outlast it,
nothing else does. Every boot reaches its hand-off in a machine that presents what is described, and
what the boots before it have left is what the descriptions of these boots have left.
-/

namespace ExistentOS.Boot

open Programs Terminated Terminal Accounts Eosfs Credentials Volume Runs

variable {File τ : Type}

/-! ## What a boot is for -/

/-- The workspace that a machine comes up with: the files and the users are kept. -/
def poweredUp (typed : List CHAR16) (workspace : Workspace File) : Workspace File where
  files := workspace.files
  mode := .batch
  echo := true
  drive := 0x42
  path := text "B:/"
  registry := workspace.registry.logout
  users := workspace.users
  shown := []
  typed := typed

/-- The lines that are run at the start, before anybody is logged in. -/
def startLines : List Text := ["@echo off", "help", "status", "ver", "ls", "mem", "clear"].map text

/-- Show the prompt, if there is an echo. The first of these lines switches the echo off. -/
def promptJob : Job File Unit := do
  let workspace ← get
  if workspace.echo then appear workspace.prompt else return ()

section Jobs

variable [DecidableEq File] (resolve : Text → File) (fuel : Nat)

/-- Carry out a line of the start, behind a prompt while there is an echo. -/
def startLine (line : Text) : Job File Unit := do
  promptJob
  let _ ← carryOut resolve fuel line
  return ()

/-- Carry out the lines of the start, one by one. -/
def startJob : Job File Unit := do
  tell (text "Fisix OS batch terminal ready")
  startLines.forM (startLine resolve fuel)

/-- Carry out the lines of the start, let somebody in, and carry out what is typed then. -/
def bootJob : Job File Unit := do
  appear (text "Fisix OS EFI boot\r\n")
  startJob resolve fuel
  let _ ← loginJob fuel
  shellJob resolve fuel

/-- Some boots with what is typed in each. What one boot leaves in the files is what the next one
begins with. -/
def bootsJob (typed : List (List CHAR16)) : Job File Unit :=
  typed.forM fun units => do
    modify (poweredUp units)
    bootJob resolve fuel

end Jobs

/-! ## The parts of the loader -/

section Parts

variable {σ : Type} (fw : Firmware σ) (fuel : Nat) (image : Handle) (table : Option SystemTable)

/-- `efi_main` up to `accounts_init`. -/
def setUp : Routine σ Unit := do
  setGlobals image table
  eosfsInit
  accountsInit fw

/-- `efi_main` between `accounts_init` and the hand-off: the start, the login and the shell. -/
def efiSession : Routine σ Unit := do
  terminalWrite fw bootMessage
  terminalRunBatch fw fuel
  let _ ← terminalLogin fw fuel
  terminalRunShell fw fuel

/-- `efi_main` sets up, runs its session and hands over. The parts are realized one by one. -/
theorem efiMain_eq : efiMain fw fuel image table = (do
    setUp fw image table
    efiSession fw fuel
    handoff fw fuel) := by
  simp only [efiMain, efiStart, efiSession, setUp, bind_assoc]

end Parts

/-! ## What outlasts a boot -/

/-- The volume holds the files and the users of the workspace. Before the first user is added there
is no file of the users. -/
structure Stored (resolve : Text → File) (contents : File → Option (List UInt8))
    (workspace : Workspace File) : Prop where
  files : ∀ file ≠ resolve storeName, contents file = workspace.files file
  users : contents (resolve storeName) = none ∧
      workspace.registry.logout = initialRegistry ∧ workspace.users = [adminName] ∨
    ∃ storage rest, contents (resolve storeName) = some (layout storage ++ rest) ∧
      Represents storage workspace.registry ∧ roster storage = workspace.users.map some

/-- A single user is the administrator, since a sound table has that name in front. -/
theorem roster_single {storage : AccountStorage} (sound : Sound storage)
    (single : storage.accountCount = 1) : roster storage = [some adminName] := by
  have inside : 0 < storage.accountCount := by omega
  have administrator : scan (storage.accounts.get ⟨0, by decide⟩).name.toList =
      some adminName := sound.administrator
  have first := accountsUserAt_get inside (by decide)
  simp [roster, accountsCount, single, first, administrator]

/-- What a machine presents is stored on its volume. So nothing is lost when the machine is
switched off. -/
theorem stored_of_presents {resolve : Text → File} {keys : Volume File × τ → List CHAR16}
    {machine : Machine (Volume File × τ)} {workspace : Workspace File}
    (presents : Presents resolve keys machine workspace) :
    Stored resolve machine.firmware.1.contents workspace := by
  refine ⟨presents.files, ?_⟩
  obtain ⟨_, represents, ⟨missing, fresh⟩ | ⟨rest, held⟩⟩ := presents.refines
  · have single : machine.accounts.accountCount = 1 := by
      have size : workspace.registry.logout.users.card = initialRegistry.users.card := by rw [fresh]
      exact represents.size.symm.trans size
    have names := roster_single represents.sound single
    rw [presents.users] at names
    refine Or.inl ⟨missing, fresh, ?_⟩
    simpa using names
  · exact Or.inr ⟨machine.accounts, rest, held, represents, presents.users⟩

/-! ## Powering on -/

/-- What a machine comes up with: the devices and whatever is in the memory. The files are not a
part of it, since they are what a power cycle keeps. -/
structure Power (τ : Type) where
  device : τ
  memory : UInt64 → UInt8
  memoryMapBuffer : Nat → UInt8

/-- A machine into which the loader has just been loaded. Of the machine before, it has the
contents of the volume. -/
def powerOn (power : Power τ) (machine : Machine (Volume File × τ)) : Machine (Volume File × τ) :=
  { Machine.entered (⟨machine.firmware.1.contents, fun _ => none, 0, []⟩, power.device) with
    memory := power.memory, memoryMapBuffer := power.memoryMapBuffer }

/-- The table has a console, a keyboard and a file system. What the hand-off needs is not asked
for. -/
def Equipped (table : Option SystemTable) : Prop :=
  table.any (·.outputString) = true ∧ table.any (·.readKeyStroke) = true ∧
    (table.bind (·.bootServices)).any (·.locateProtocol) = true

/-- Setting up takes nothing from the keyboard, so what is typed ahead is still there for the
login. -/
theorem ignores_accountsInit {σ : Type} {fw : Firmware σ} {keys : σ → List CHAR16}
    (keyboard : Keyboard fw keys) : Keeps (Ignores keys) (accountsInit fw) := by
  have frame := keyboard.storage_untouched
  have composed : Composed (untouched fw) (fun _ => True) (StorageStep (untouched fw))
      (accountsInit (untouched fw)) := composed_accountsInit (fun _ _ named => named) trivial
  exact composed.keepsStorage

/-- The table that is loaded has the users that are stored, and nobody is logged in. -/
theorem Stored.adopted {resolve : Text → File} {contents : File → Option (List UInt8)}
    {workspace : Workspace File} (stored : Stored resolve contents workspace)
    (storage : AccountStorage) {account : Account} (isBuiltIn : IsBuiltIn account) :
    ∃ loaded, loaded = adoptedBytes (fallback storage account)
        (((contents (resolve storeName)).getD []).take storeWidth) ∧
      Represents loaded workspace.registry.logout ∧ roster loaded = workspace.users.map some ∧
      (contents (resolve storeName) = none ∧ workspace.registry.logout = initialRegistry ∨
        ∃ rest, contents (resolve storeName) = some (layout loaded ++ rest)) := by
  refine ⟨_, rfl, ?_⟩
  rcases stored.users with ⟨missing, fresh, one⟩ | ⟨saved, rest, held, represents, users⟩
  · have builtIn := represents_fallback storage account isBuiltIn
    rw [missing, Option.getD_none, List.take_nil, adoptedBytes_nil, fresh, one]
    exact ⟨builtIn, roster_single builtIn.sound rfl, Or.inl ⟨rfl, rfl⟩⟩
  · rw [held, Option.getD_some, adoptedBytes_layout _ _ _ represents.sound.positive
      represents.sound.bounded]
    exact ⟨represents.logout, users, Or.inr ⟨rest, rfl⟩⟩

/-- Behind `accounts_init`, the machine presents what is stored on its volume. This is where a
boot resumes from the one before it. -/
theorem run_setUp [DecidableEq File] {resolve : Text → File} {device : Firmware τ}
    {keys : τ → List CHAR16} (image : Handle) (keyboard : Keyboard device keys)
    {table : Option SystemTable} (equipped : Equipped table) (power : Power τ)
    {machine : Machine (Volume File × τ)} {workspace : Workspace File}
    (stored : Stored resolve machine.firmware.1.contents workspace) :
    ∃ ready, (setUp (Volume.firmware resolve device) image table).run (powerOn power machine) =
        .ok ((), ready) ∧
      Presents resolve (fun state => keys state.2) ready
        (poweredUp (keys power.device) workspace) := by
  let entered : Machine (Volume File × τ) := { powerOn power machine with
    gImageHandle := image
    gST := table
    gBS := table.bind (·.bootServices) }
  obtain ⟨entries, set, initialises⟩ := run_eosfsInit entered
  let listed : Machine (Volume File × τ) := { entered with eosfs := entries }
  have working : Working listed := ⟨equipped.2.2, rfl⟩
  obtain ⟨ready, account, loads, isBuiltIn, frame, contents, faults⟩ :=
    run_accountsInit resolve device listed
  rw [working.readBack] at frame
  obtain ⟨loaded, same, represents, users, held⟩ := stored.adopted initialAccounts isBuiltIn
  obtain ⟨events, traced, silent⟩ := silent_accountsInit listed () ready loads
  have unasked : keys ready.firmware.2 = keys power.device :=
    (ignores_accountsInit (keyboard_volume keyboard)).related listed () ready loads
  have still := (working.withAccounts _).after frame faults
  have named : ∀ shown ∈ tableShown entries, shown.isSome := by
    rw [(initialTable_shown set).2, List.forall_mem_map]
    exact fun _ _ => rfl
  refine ⟨ready, ?_, ?_⟩
  · have globals : (setGlobals image table).run (powerOn power machine) = .ok ((), entered) := rfl
    rw [setUp, run_bind_of_ok globals, run_bind_of_ok initialises, loads]
  · obtain ⟨firmware, trace, rfl⟩ := frame
    have shown : output trace = [] := by
      rw [show trace = [] ++ events from traced, List.nil_append, silent]
    exact {
      writes := equipped.1
      reads := equipped.2.1
      letter := (by decide : initialTerminal.currentDrive ≠ 0)
      refines := ⟨still, same ▸ represents, by
        rw [show firmware.1.contents = machine.firmware.1.contents from contents]
        exact same ▸ held⟩
      files := fun file apart => (congrFun contents file).trans (stored.files file apart)
      mode := rfl
      echo := rfl
      drive := rfl
      path := (by decide : scan initialTerminal.currentPath.toList = some (text "B:/"))
      users := same ▸ users
      table := named
      shown := shown ▸ .nothing
      typed := unasked }

/-! ## A boot -/

section Booting

variable [DecidableEq File] {resolve : Text → File} {device : Firmware τ}
  {keys : Volume File × τ → List CHAR16} (keyboard : Keyboard (Volume.firmware resolve device) keys)
  (records : Records device)
include keyboard

/-- The prompt of the machine is the prompt of the workspace. -/
theorem realizes_echoPrompt :
    Realizes (Presents resolve keys) (echoPrompt (Volume.firmware resolve device))
      (promptJob : Job File Unit) := by
  apply realizes_view
  intro machine workspace presents
  obtain ⟨prompt, free⟩ := presents.prompt
  have entered : (get : Routine (Volume File × τ) _).run machine = .ok (machine, machine) := rfl
  have shown : Realizes (Presents resolve keys)
      (terminalWrite (Volume.firmware resolve device) (workspace.prompt ++ [0]))
      (appear workspace.prompt : Job File Unit) :=
    realizes_shows keyboard (shows_terminalWrite free) (by simp)
  rw [echoPrompt, run_bind_of_ok entered, prompt, presents.echo]
  exact realizes_ite Iff.rfl (fun _ => shown) (fun _ => realizes_pure ()) machine workspace presents

include records

/-- `terminal_run_batch` carries out the lines of the start, which nobody has to be logged in
for. -/
theorem realizes_terminalRunBatch (fuel : Nat) :
    Realizes (Presents resolve keys) (terminalRunBatch (Volume.firmware resolve device) fuel)
      (startJob resolve fuel) := by
  have ready : (0 : CHAR16) ∉ text "Fisix OS batch terminal ready" := by decide
  apply (realizes_say keyboard ready).bind
  intro _
  have readable : scan autoexecBatch = some autoexecBatch.dropLast := by decide +kernel
  have lines : runs isLineEnd autoexecBatch.dropLast = startLines := by decide +kernel
  have short : ∀ line ∈ startLines, line.length < terminalMaxLine := by decide +kernel
  have free : ∀ line ∈ startLines, (0 : CHAR16) ∉ line := by decide +kernel
  rw [terminalRunBatchFile_eq _ readable (lines ▸ short), lines]
  apply realizes_forM
  intro line member
  apply (realizes_echoPrompt keyboard).bind
  intro _
  exact (realizes_terminalExecuteCommand keyboard records fuel
    (scan_append line [] (free line member)) (short line member)).bind fun _ => realizes_pure ()

/-- A whole session, from the accounts to the end of the shell, is the boot of the workspace. -/
theorem realizes_efiSession (fuel : Nat) :
    Realizes (Presents resolve keys) (efiSession (Volume.firmware resolve device) fuel)
      (bootJob resolve fuel) := by
  have greeting : (0 : CHAR16) ∉ text "Fisix OS EFI boot\r\n" := by decide
  have greets : Realizes (Presents resolve keys)
      (terminalWrite (Volume.firmware resolve device) bootMessage)
      (appear (text "Fisix OS EFI boot\r\n") : Job File Unit) :=
    realizes_shows keyboard (shows_terminalWrite greeting) (by simp)
  apply greets.bind
  intro _
  apply (realizes_terminalRunBatch keyboard records fuel).bind
  intro _
  apply (realizes_terminalLogin keyboard fuel).bind
  intro _
  exact realizes_terminalRunShell keyboard records fuel

end Booting

/-! ## The hand-off -/

section Handing

variable [DecidableEq File] (resolve : Text → File) (device : Firmware τ)

/-- A part of the state of the volume and the device that the hand-off leaves alone. -/
abbrev contentsOf (state : Volume File × τ) : File → Option (List UInt8) := state.1.contents

/-- Opening for reading changes no file, as it creates none. -/
theorem openPath_reading (volume : Volume File) (file : File) :
    (volume.openPath file efiFileModeRead).2.contents = volume.contents := by
  simp only [openPath]
  split
  · rfl
  · split
    · rfl
    · simp [load_keeps]

omit [DecidableEq File] in
/-- A change outside the firmware changes no file. -/
theorem ignores_modify {update : Machine (Volume File × τ) → Machine (Volume File × τ)}
    (same : ∀ machine, (update machine).firmware = machine.firmware) :
    Keeps (Ignores contentsOf) (modify update : Routine (Volume File × τ) Unit) :=
  keeps_modify fun machine => congrArg contentsOf (same machine)

/-- Reporting a failed start writes on the console and changes no file. -/
theorem ignores_failedToStart : Keeps (Ignores contentsOf)
    (failedToStart (Volume.firmware resolve device)) := by
  have frame : CallFrame (consoleOf (Volume.firmware resolve device)) (Ignores contentsOf) :=
    frame_consoleOf (fun _ _ => rfl) (fun _ => rfl)
  have composed : Composed (consoleOf (Volume.firmware resolve device)) (fun _ => True) Nothing
      (failedToStart (consoleOf (Volume.firmware resolve device))) :=
    Composed.bind (composed_terminalWriteLine (Or.inl (constant_ends _)))
      fun _ => Composed.pure efiLoadError
  exact composed.keepsQuiet

/-- Closing changes no file. -/
theorem ignores_closeFile (file : Handle) : Keeps (Ignores contentsOf)
    (closeFile (Volume.firmware resolve device) file) := ignores_call fun _ => rfl

/-- The read into the memory changes no file, whether it is of the volume or of the device. -/
theorem ignores_readKernel (kernel : Handle) :
    Keeps (Ignores contentsOf) (readKernel (Volume.firmware resolve device) kernel) := by
  apply keeps_bind (ignores_call fun _ => rfl)
  intro allocated
  refine keeps_ite (fun _ => keeps_pure _) (fun _ => ?_)
  apply keeps_bind (ignores_modify (by exact fun _ => rfl))
  intro _
  have transfers : Keeps (Ignores contentsOf)
      (readPhysical (Volume.firmware resolve device) kernel allocated.2 kernelMaxBytes) := by
    apply ignores_call
    intro state
    simp only [Volume.firmware]
    split
    · exact readPath_contents _ _ _ _
    · rfl
  apply keeps_bind transfers
  intro answer
  exact keeps_bind (ignores_modify (by exact fun _ => rfl)) fun _ => keeps_pure _

/-- The kernel is opened for reading, so its opening creates nothing, and what is closed behind
it was not written to. -/
theorem ignores_loadFromRoot (root : Handle) :
    Keeps (Ignores contentsOf) (loadFromRoot (Volume.firmware resolve device) root) := by
  have closes := ignores_closeFile resolve device
  apply keeps_bind (keeps_orStop _ _)
  intro name
  apply keeps_bind (ignores_call fun state => openPath_reading state.1 (resolve name))
  intro opened
  refine keeps_ite (fun _ => keeps_bind (closes _) fun _ => keeps_pure _) (fun _ => ?_)
  apply keeps_bind (ignores_readKernel resolve device opened.2)
  intro status
  exact keeps_bind (closes _) fun _ => keeps_bind (closes _) fun _ => keeps_pure status

/-- Loading the kernel changes no file, wherever it gives up. -/
theorem ignores_efiLoadKernel : Keeps (Ignores contentsOf)
    (efiLoadKernel (Volume.firmware resolve device)) := by
  apply keeps_bind keeps_get
  intro machine
  refine keeps_ite (fun _ => ?_) (fun _ => keeps_pure _)
  apply keeps_bind (ignores_call fun _ => rfl)
  intro located
  refine keeps_ite (fun _ => keeps_pure _) (fun _ => ?_)
  have opens : Keeps (Ignores contentsOf)
      (openVolume (Volume.firmware resolve device) located.2) := by
    apply ignores_call
    intro state
    rw [firmware_openVolume]
    exact (openRoot_effect state.1).1
  apply keeps_bind opens
  intro volume
  exact keeps_ite (fun _ => keeps_pure _) (fun _ => ignores_loadFromRoot resolve device volume.2)

/-- A round of the exit protocol fetches a map and asks to exit. Neither changes a file. -/
theorem ignores_exitRound (bootInfo : BootInfo) :
    Keeps (Ignores contentsOf) (exitRound (Volume.firmware resolve device) bootInfo ()) := by
  apply keeps_bind (ignores_call fun _ => rfl)
  intro answer
  refine keeps_ite (fun _ => keeps_throw _) (fun _ => ?_)
  apply keeps_bind (ignores_modify (by exact fun _ => rfl))
  intro _
  refine keeps_ite (fun _ => keeps_pure _) (fun _ => ?_)
  apply keeps_bind keeps_get
  intro fetched
  apply keeps_bind (keeps_orStop _ _)
  intro total
  apply keeps_bind (ignores_call fun _ => rfl)
  intro status
  refine keeps_ite (fun _ => ?_) (fun _ => ?_)
  · exact keeps_bind (ignores_modify (by exact fun _ => rfl)) fun _ => keeps_pure _
  · exact keeps_ite (fun _ => keeps_pure _) (fun _ => keeps_pure _)

/-- Leaving the boot services changes no file, after any number of rounds. -/
theorem ignores_efiLeaveBootServices (fuel : Nat) (bootInfo : BootInfo) :
    Keeps (Ignores contentsOf)
      (efiLeaveBootServices (Volume.firmware resolve device) fuel bootInfo) := by
  apply keeps_bind keeps_get
  intro machine
  refine keeps_ite (fun _ => ?_) (fun _ => keeps_pure _)
  exact keeps_iterate _ (fun _ => ignores_exitRound resolve device bootInfo) fuel ()

/-- The hand-off changes no file, whether it succeeds or not. So the files of a boot are those
that its session has left. -/
theorem ignores_handoff (fuel : Nat) :
    Keeps (Ignores contentsOf) (handoff (Volume.firmware resolve device) fuel) := by
  have fails := ignores_failedToStart resolve device
  apply keeps_bind (ignores_efiLoadKernel resolve device)
  intro loaded
  refine keeps_ite (fun _ => ?_) (fun _ => fails)
  apply keeps_bind (ignores_efiLeaveBootServices resolve device fuel _)
  intro left
  refine keeps_ite (fun _ => ?_) (fun _ => fails)
  exact keeps_bind (ignores_modify (by exact fun _ => rfl)) fun _ => keeps_pure efiSuccess

end Handing

/-! ## Boot by boot -/

section Cycles

variable [DecidableEq File] (resolve : Text → File) (device : Firmware τ) (fuel : Nat)
variable (image : Handle) (table : Option SystemTable)

/-- Power on and run the loader. Whatever it answers, the next boot starts from what it leaves. -/
def boot (power : Power τ) : Routine (Volume File × τ) Unit := do
  modify (powerOn power)
  let _ ← efiMain (Volume.firmware resolve device) fuel image table
  return ()

variable {resolve device fuel table} {keys : τ → List CHAR16}
variable (keyboard : Keyboard device keys) (records : Records device) (equipped : Equipped table)
include keyboard records equipped

/-- A boot reaches its hand-off in a machine that presents what is described. -/
theorem efiMain_reaches (power : Power τ) {machine : Machine (Volume File × τ)}
    {workspace after' : Workspace File}
    (stored : Stored resolve machine.firmware.1.contents workspace)
    (ended : (bootJob resolve fuel).run (poweredUp (keys power.device) workspace) =
      .ok ((), after')) :
    ∃ left, (efiMain (Volume.firmware resolve device) fuel image table).run
        (powerOn power machine) = (handoff (Volume.firmware resolve device) fuel).run left ∧
      Presents resolve (fun state => keys state.2) left after' := by
  obtain ⟨ready, sets, presents⟩ := run_setUp image keyboard equipped power stored
  obtain ⟨left, serves, presented⟩ := realizes_efiSession (keyboard_volume keyboard) records fuel
    ready _ presents () after' ended
  refine ⟨left, ?_, presented⟩
  rw [efiMain_eq, run_bind_of_ok sets, run_bind_of_ok serves]

/-- What the boots leave on the volume is what their descriptions leave.

Induct over the boots; the hand-off of each changes no file. -/
theorem stored_boots (powers : List (Power τ)) {start machine : Machine (Volume File × τ)}
    {workspace after' : Workspace File}
    (stored : Stored resolve start.firmware.1.contents workspace)
    (booted : (powers.forM (boot resolve device fuel image table)).run start = .ok ((), machine))
    (described : (bootsJob resolve fuel (powers.map (keys ·.device))).run workspace =
      .ok ((), after')) : Stored resolve machine.firmware.1.contents after' := by
  induction powers generalizing start workspace with
  | nil =>
    cases booted
    cases described
    exact stored
  | cons power rest ih =>
    obtain ⟨_, middle, first, others⟩ := (run_bind_ok _ _ _ _).mp booted
    obtain ⟨_, middle', first', others'⟩ := (run_bind_ok _ _ _ _).mp described
    obtain ⟨left, reaches, presents⟩ :=
      efiMain_reaches image keyboard records equipped power stored first'
    obtain ⟨_, _, ⟨rfl⟩, loads⟩ := (run_bind_ok _ _ _ _).mp first
    obtain ⟨status, _, hands, ⟨rfl⟩⟩ := (run_bind_ok _ _ _ _).mp loads
    have kept : middle.firmware.1.contents = left.firmware.1.contents :=
      (ignores_handoff resolve device fuel).related left status middle (reaches.symm.trans hands)
    exact ih (kept ▸ stored_of_presents presents) others others'

/-- After any boots, the next one serves the workspace that the boots before it have left: if its
description ends, `efi_main` reaches its hand-off in a machine that presents the files, the users,
the settings and the screen of the description. -/
theorem efiMain_resumes (powers : List (Power τ)) (power : Power τ)
    {start machine : Machine (Volume File × τ)} {workspace before' after' : Workspace File}
    (stored : Stored resolve start.firmware.1.contents workspace)
    (booted : (powers.forM (boot resolve device fuel image table)).run start = .ok ((), machine))
    (described : (bootsJob resolve fuel (powers.map (keys ·.device))).run workspace =
      .ok ((), before'))
    (ended : (bootJob resolve fuel).run (poweredUp (keys power.device) before') =
      .ok ((), after')) :
    ∃ left, (efiMain (Volume.firmware resolve device) fuel image table).run
        (powerOn power machine) = (handoff (Volume.firmware resolve device) fuel).run left ∧
      Presents resolve (fun state => keys state.2) left after' := by
  have outlasting := stored_boots image keyboard records equipped powers stored booted described
  exact efiMain_reaches image keyboard records equipped power outlasting ended

end Cycles

/-- Power on with some lines typed. Files stay as they are, and all variables start anew. -/
def poweredWith (lines : List String) : Power (List CHAR16) :=
  ⟨linesTyped (lines.map text), fun _ => 0, fun _ => 0⟩

/-- A table with everything that the loader tests. -/
def fullTable : Option SystemTable := some ⟨true, true, some ⟨true, true, true, true⟩⟩

/-- A machine with an empty volume and nothing typed. -/
def emptyDisk : Machine (Volume Text × List CHAR16) :=
  Machine.entered (⟨fun _ => none, fun _ => none, 0, []⟩, [])

/-- Lines that add a user and write a script. -/
def firstBoot : Power (List CHAR16) :=
  poweredWith ["admin", "fisix", "useradd bob secret", "write s users", "append s whoami", "exit"]

/-- Lines of that user, who runs the script. -/
def secondBoot : Power (List CHAR16) :=
  poweredWith ["bob", "secret", "source s & cat s", "ls C:", "exit"]

/-- The user and the script are still there. -/
theorem efiMain_resumes_second : ∃ left,
    (efiMain (Volume.firmware id Terminal.keyboard) 30 1 fullTable).run (powerOn secondBoot
      (finalState ([firstBoot].forM (boot id Terminal.keyboard 30 1 fullTable)) emptyDisk)) =
        (handoff (Volume.firmware id Terminal.keyboard) 30).run left ∧
    Presents id (fun state => state.2) left (finalState (bootJob id 30)
      (poweredUp secondBoot.device
        (finalState (bootsJob id 30 [firstBoot.device]) (emptyWorkspace [])))) :=
  efiMain_resumes 1 keyboard_typed records_typed ⟨rfl, rfl, rfl⟩ [firstBoot] secondBoot
    ⟨fun _ _ => rfl, Or.inl ⟨rfl, rfl, rfl⟩⟩ (run_finalState (by decide +kernel))
    (run_finalState (by decide +kernel)) (run_finalState (by decide +kernel))

end ExistentOS.Boot
