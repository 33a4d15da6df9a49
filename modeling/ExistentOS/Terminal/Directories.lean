import ExistentOS.Terminal.Described

/-!
# Directories are listed as described

`dir` and `ls` show a heading and a line for each entry. The entries come from the device, whose
directory reads are only asked to hand out whole records, or else from the entry table; either way
their names fit the field of an entry. A listing returns, shows nothing else and changes no file.
-/

namespace ExistentOS.Terminal

open Programs Terminated Traces Runs Accounts Volume Eosfs

/-! ## Nothing else is shown -/

section Silent

variable {σ : Type} {fw : Firmware σ}

/-- A round of the listing shows nothing. -/
theorem silent_readEntryRound (root : Handle) (maxEntries : Nat)
    (current : List UInt8 × List ListedEntry) :
    Silent (readEntryRound fw root maxEntries current) := by
  refine logs_ite (fun _ => ?_) (fun _ => silent_pure _)
  apply (silent_readFile root recordBufferSize).then
  intro answer
  refine logs_ite (fun _ => silent_pure _) (fun _ => ?_)
  apply (silent_orStop .unset _).then
  intro first
  refine logs_ite (fun _ => silent_pure _) (fun _ => ?_)
  apply (silent_orStop .unset _).then
  intro name
  exact (silent_orStop .unset _).then fun _ => silent_pure _

/-- `eosfs_list_path` shows nothing. Its entries are shown by the caller. -/
theorem silent_eosfsListPath (maxEntries : Nat) : Silent (eosfsListPath fw maxEntries) := by
  have reads : Silent (eosfsReadDiskEntries fw maxEntries) := by
    apply logs_view
    intro machine
    cases machine.gBS with
    | none => exact silent_pure none
    | some services =>
      refine logs_ite (fun _ => silent_pure none) (fun _ => ?_)
      refine logs_ite (fun _ => ?_) (fun _ => logs_throw _)
      apply (silent_call fw.locateProtocol .locateProtocol fun _ => rfl).then
      intro located
      refine logs_ite (fun _ => silent_pure none) (fun _ => ?_)
      apply (silent_call (fw.openVolume located.2) (.openVolume located.2) fun _ => rfl).then
      intro volume
      refine logs_ite (fun _ => silent_pure none) (fun _ => ?_)
      apply (silent_iterate (silent_readEntryRound volume.2 maxEntries) _ _).then
      intro entries
      exact silent_closing volume.2 _
  refine logs_ite (fun _ => silent_pure none) (fun _ => ?_)
  apply reads.then
  intro listed
  cases listed with
  | some entries => exact silent_pure _
  | none => exact logs_view fun _ => silent_pure _

end Silent

/-! ## Entries -/

/-- The entry has a name that fits its field, so that printing it stays inside. -/
def Listable (listed : ListedEntry) : Prop :=
  ∃ entry, shown listed = some entry ∧ entry.1.length ≤ eosfsNameMax ∧ (0 : CHAR16) ∉ entry.1

/-- The record of a file makes an entry with a name. -/
theorem listable_recordEntry {bytes : List UInt8} {listed : ListedEntry}
    (made : recordEntry bytes = some listed) : Listable listed := by
  obtain ⟨name, named, behind⟩ := Option.bind_eq_some_iff.mp made
  obtain ⟨flags, _, same⟩ := Option.bind_eq_some_iff.mp behind
  cases same
  obtain ⟨fits, free⟩ := nameFrom_fits named
  exact ⟨(name, entryType flags), by simp [shown, scan_append name [] free], fits, free⟩

/-- The entries of any answers have names that fit. -/
theorem listable_entriesOf {answers : List ReadAnswer} :
    ∀ listed ∈ entriesOf answers, Listable listed := by
  induction answers with
  | nil => simp [entriesOf]
  | cons answer rest ih =>
    cases made : entryOf answer with
    | none => simp [entriesOf_end made]
    | some entry =>
      have record : recordEntry answer.bytes = some entry := by
        rw [entryOf] at made
        split at made
        · cases made
        · exact (Option.filter_eq_some_iff.mp made).1
      rw [entriesOf_cons made, List.forall_mem_cons]
      exact ⟨listable_recordEntry record, ih⟩

/-- The entry table has names that fit, since they were cut when they were added. -/
theorem listable_table {storage : EosfsStorage}
    (table : ∀ listed ∈ tableShown storage, listed.isSome) (maxEntries : Nat) :
    ∀ listed ∈ (tableEntries storage maxEntries).map listedEntry, Listable listed := by
  intro listed member
  obtain ⟨entry, inside, rfl⟩ := List.mem_map.mp member
  have named := table _ (List.mem_map_of_mem (List.mem_of_mem_take inside))
  obtain ⟨found, named⟩ := Option.isSome_iff_exists.mp named
  obtain ⟨name, readable, same⟩ := Option.map_eq_some_iff.mp named
  obtain ⟨free, rest, whole⟩ := scan_split _ _ readable
  have size := congrArg List.length whole
  cases same
  simp [listedEntry] at size
  exact ⟨_, named, by dsimp only; omega, free⟩

/-- A listing shows a line for each entry.

Induct over the entries. -/
theorem shows_showEntries {σ : Type} (fw : Firmware σ) {listed : List ListedEntry}
    (listable : ∀ entry ∈ listed, Listable entry) :
    ∃ (texts : List Text) (entries : List (Text × EosfsEntryType)),
      Shows fw texts () (showEntries fw listed) ∧ texts.flatten = entries.flatMap entryLine ∧
      entries.length = listed.length ∧
      ∀ entry ∈ entries, entry.1.length ≤ eosfsNameMax ∧ (0 : CHAR16) ∉ entry.1 := by
  induction listed with
  | nil => exact ⟨[], [], shows_pure (), rfl, rfl, fun _ none => by cases none⟩
  | cons first rest ih =>
    obtain ⟨texts, entries, showing, flat, size, short⟩ :=
      ih fun entry member => listable entry (List.mem_cons_of_mem first member)
    obtain ⟨entry, named, fits, free⟩ := listable first List.mem_cons_self
    obtain ⟨memory, type⟩ := first
    obtain ⟨name, readable, rfl⟩ := Option.map_eq_some_iff.mp named
    have blank : (0 : CHAR16) ∉ [space] := by decide
    have kind : Shows fw [text (if type = .dir then "<dir>" else "<file>")] ()
        (terminalWrite fw (if type = .dir then constant "<dir>" else constant "<file>")) := by
      cases type with
      | dir => exact shows_terminalWrite (by decide)
      | file => exact shows_terminalWrite (by decide)
    have ending : Shows fw [[], [carriageReturn, lineFeed]] () (terminalWriteLine fw [0]) :=
      shows_terminalWriteLine List.not_mem_nil
    have line := (shows_writeField fw readable).then ((shows_terminalWrite blank).then (kind.then
      (ending.then showing)))
    refine ⟨_, (name, type) :: entries, line, ?_, by simp [size], ?_⟩
    · simp [flat, entryLine]
    · exact List.forall_mem_cons.mpr ⟨⟨fits, free⟩, short⟩

/-! ## Directories of a volume -/

section Directory

/-- Directory reads hand out whole records, or fail. -/
def Records {τ : Type} (device : Firmware τ) : Prop :=
  ∀ root state, Complete (device.read root recordBufferSize state).1

/-- The next answers of a directory, as far as they are counted. -/
def answersFrom {σ : Type} (fw : Firmware σ) (root : Handle) : Nat → σ → List ReadAnswer
  | 0, _ => []
  | count + 1, state => (fw.read root recordBufferSize state).1 ::
      answersFrom fw root count (fw.read root recordBufferSize state).2

/-- There are as many answers as reads. -/
theorem answersFrom_length {σ : Type} (fw : Firmware σ) (root : Handle) (count : Nat) (state : σ) :
    (answersFrom fw root count state).length = count := by
  induction count generalizing state with
  | zero => rfl
  | succ count ih => simp [answersFrom, ih]

/-- The firmware gives these answers. -/
theorem answers_answersFrom {σ : Type} (fw : Firmware σ) (root : Handle) (count : Nat) (state : σ) :
    Eosfs.Answers fw root (answersFrom fw root count state) state := by
  induction count generalizing state with
  | zero => trivial
  | succ count ih => exact ⟨rfl, ih _⟩

variable {File τ : Type} [DecidableEq File] {resolve : Text → File} {device : Firmware τ}

/-- A directory of the volume is read by the device. -/
theorem complete_answersFrom (records : Records device) {root : Handle} (count : Nat)
    {state : Volume File × τ} (directory : state.1.opened root = none) :
    ∀ answer ∈ answersFrom (Volume.firmware resolve device) root count state, Complete answer := by
  induction count generalizing state with
  | zero => simp [answersFrom]
  | succ count ih =>
    have read : (Volume.firmware resolve device).read root recordBufferSize state =
        ((device.read root recordBufferSize state.2).1,
          (state.1, (device.read root recordBufferSize state.2).2)) := by
      simp [Volume.firmware, directory]
    rw [answersFrom, read, List.forall_mem_cons]
    exact ⟨records root state.2, ih directory⟩

section Mounted

variable (resolve device)

/-- A volume without failing calls is mounted on a directory. -/
theorem mounted_calm {machine : Machine (Volume File × τ)} (calm : machine.firmware.1.faults = [])
    (locates : machine.canLocate = true) :
    ∃ root state, mounted (Volume.firmware resolve device) machine = some (root, state) ∧
      state.1.opened root = none := by
  obtain ⟨services, table, _⟩ := (Option.any_eq_true _ _).mp locates
  have first : machine.firmware.1.fault = Fault.absent := faultAt_of_nil calm 0
  have second : machine.firmware.1.spent.fault = Fault.absent :=
    faultAt_of_nil (spent_faultless calm) 0
  have works : efiError efiSuccess = false := by decide
  have mount : (Volume.firmware resolve device).openVolume 1
      (machine.firmware.1.spent, machine.firmware.2) =
        ((efiSuccess, machine.firmware.1.next + 1),
          ((machine.firmware.1.spent.spent.issue none).2, machine.firmware.2)) := by
    simp [firmware_openVolume, openRoot, second, Fault.absent, works]
  refine ⟨machine.firmware.1.next + 1,
    ((machine.firmware.1.spent.spent.issue none).2, machine.firmware.2), ?_, ?_⟩
  · have located : (Volume.firmware resolve device).locateProtocol machine.firmware =
        ((efiSuccess, 1), (machine.firmware.1.spent, machine.firmware.2)) := by
      simp [Volume.firmware, first, Fault.absent]
    simp [mounted, table, located, mount, works]
  · simp

/-- The directory calls of a firmware, and no others. Its keyboard and its console are left out. -/
def directoriesOf {σ : Type} (fw : Firmware σ) : Firmware σ :=
  { Firmware.inert with
    locateProtocol := fw.locateProtocol, openVolume := fw.openVolume
    close := fw.close, read := fw.read }

/-- Directory calls leave the files as they are. -/
theorem frame_directories : QuietFrame (directoriesOf (Volume.firmware resolve device))
    (Ignores fun state => state.1.contents) where
  setModes _ := keeps_modify fun _ => rfl
  locateProtocol := ignores_call fun _ => rfl
  openVolume fs := by
    apply ignores_call
    intro state
    have opened := firmware_openVolume resolve device fs
    rw [directoriesOf, opened]
    exact (openRoot_effect state.1).1
  openFile _ _ _ _ := ignores_call fun _ => rfl
  closeFile _ := ignores_call fun _ => rfl
  readFile file size := by
    apply keeps_bind
    · apply ignores_call
      intro state
      simp only [directoriesOf, Volume.firmware]
      split
      · exact readPath_contents _ _ _ _
      · rfl
    · intro answer
      exact keeps_ite (fun _ => keeps_pure answer) (fun _ => keeps_throw Stop.overrun)
  setPosition _ _ := ignores_call fun _ => rfl
  flushFile _ := keeps_ite
    (fun _ => keeps_bind (ignores_call fun _ => rfl) fun _ => keeps_pure ())
    (fun _ => keeps_pure ())
  outputString _ := ignores_call fun _ => rfl
  readKeyStroke := ignores_call fun _ => rfl

variable {device} in
/-- `eosfs_list_path` lists entries with names, and nothing is shown or changed by it. -/
theorem run_listPath (records : Records device) {machine : Machine (Volume File × τ)}
    (calm : machine.firmware.1.faults = []) (locates : machine.canLocate = true)
    (table : ∀ listed ∈ tableShown machine.eosfs, listed.isSome) :
    ∃ listed after, (eosfsListPath (Volume.firmware resolve device) eosfsMaxEntries).run machine =
        .ok (some listed, after) ∧ Displays [] machine after ∧ listed.length ≤ eosfsMaxEntries ∧
      ∀ entry ∈ listed, Listable entry := by
  obtain ⟨root, state, mounts, directory⟩ :=
    mounted_calm resolve device calm locates
  have callable : Callable machine := by
    intro services found
    simpa [Machine.canLocate, Option.mem_def.mp found] using locates
  have reads : ∀ root' state', mounted (Volume.firmware resolve device) machine =
      some (root', state') → Eosfs.Answers (Volume.firmware resolve device) root'
        (answersFrom (Volume.firmware resolve device) root eosfsMaxEntries state) state' := by
    intro root' state' found
    cases mounts.symm.trans found
    exact answers_answersFrom _ _ _ _
  have many := answersFrom_length (Volume.firmware resolve device) root eosfsMaxEntries state
  obtain ⟨_, after, ran, frame, rfl⟩ := (wp_total_iff _ _ _).mp
    (wp_eosfsListPath (Volume.firmware resolve device) callable (by decide) reads
      (complete_answersFrom records _ directory) (Or.inl many.ge))
  refine ⟨_, after, ran, ⟨frame, ?_, ?_, ?_⟩, ?_, ?_⟩
  · exact silent_eosfsListPath eosfsMaxEntries machine _ after ran
  · have quiet := frame_directories resolve device
    have composed : Composed (directoriesOf (Volume.firmware resolve device)) (fun _ => True) Nothing
        (eosfsListPath (directoriesOf (Volume.firmware resolve device)) eosfsMaxEntries) :=
      composed_eosfsListPath eosfsMaxEntries
    have same : Ignores (fun state : Volume File × τ => state.1.contents) machine after :=
      composed.keepsQuiet.related machine _ after ran
    exact same
  · have composed : Composed (Volume.firmware resolve device) (fun _ => True) Nothing
        (eosfsListPath (Volume.firmware resolve device) eosfsMaxEntries) :=
      composed_eosfsListPath eosfsMaxEntries
    have still : StaysFaultless machine after := composed.keepsQuiet.related machine _ after ran
    rw [still calm]
    exact List.nil_suffix
  · split
    · rw [List.length_map, tableEntries]
      exact List.length_take_le _ _
    · rw [volumeEntries, mounts]
      exact List.length_take_le _ _
  · split
    · exact listable_table table eosfsMaxEntries
    · rw [volumeEntries, mounts]
      exact fun entry member => listable_entriesOf entry (List.mem_of_mem_take member)

end Mounted

/-- A directory is read without the keyboard. -/
theorem Keyboard.ignores_listPath {σ : Type} {fw : Firmware σ} {keys : σ → List CHAR16}
    (keyboard : Keyboard fw keys) (maxEntries : Nat) :
    Keeps (Ignores keys) (eosfsListPath fw maxEntries) := by
  have frame := keyboard.frame_untouched
  have composed : Composed (untouched fw) (fun _ => True) Nothing
      (eosfsListPath (untouched fw) maxEntries) := composed_eosfsListPath maxEntries
  exact composed.keepsQuiet

variable {keys : Volume File × τ → List CHAR16}
  (keyboard : Keyboard (Volume.firmware resolve device) keys) (records : Records device)
include keyboard records

/-- `terminal_show_drive_root` shows a listing of names that fit. Which ones is up to the
firmware. -/
theorem run_terminalShowDriveRoot {machine : Machine (Volume File × τ)}
    (calm : machine.firmware.1.faults = []) (locates : machine.canLocate = true)
    (console : canWrite machine = true)
    (table : ∀ listed ∈ tableShown machine.eosfs, listed.isSome) (drive : CHAR16) :
    ∃ shown after, (terminalShowDriveRoot (Volume.firmware resolve device) drive).run machine =
        .ok ((), after) ∧ Displays shown machine after ∧ Ignores keys machine after ∧
      (Piece.listing drive).Allows shown := by
  obtain ⟨listed, read, ran, displays, few, listable⟩ :=
    run_listPath resolve records calm locates table
  obtain ⟨texts, entries, showing, flat, size, short⟩ :=
    shows_showEntries (Volume.firmware resolve device) listable
  have heading : (0 : CHAR16) ∉ text (if drive = 0x43 then "C:/ - GPT disk partition"
      else "B:/ - GPT disk partition") := by
    split
    · decide
    · decide
  obtain ⟨lines, showing, flat⟩ : ∃ lines, Shows (Volume.firmware resolve device) lines () (do
        say (Volume.firmware resolve device) (if drive = 0x43 then "C:/ - GPT disk partition"
          else "B:/ - GPT disk partition")
        showEntries (Volume.firmware resolve device) listed) ∧
      lines.flatten = text (if drive = 0x43 then "C:/ - GPT disk partition"
        else "B:/ - GPT disk partition") ++ [carriageReturn, lineFeed] ++
          entries.flatMap entryLine :=
    ⟨_, (shows_say heading).then showing, by simp [flat]⟩
  have shown := displays.then (displays_afterWrites resolve device (displays.console console) lines)
  have unasked : Ignores keys machine read := (keyboard.ignores_listPath _).related machine _ _ ran
  refine ⟨lines.flatten, _, ?_, shown, (keyboard.unspent read lines).trans unasked, ?_⟩
  · rw [terminalShowDriveRoot, run_bind_of_ok ran]
    exact showing read
  · rw [flat]
    exact .listing drive (size.trans_le few) short

/-- `dir` and `ls` show what the directory lists. -/
theorem realizes_listDrive (words : List Text) :
    Realizes (Presents resolve keys) (listDrive (Volume.firmware resolve device) words)
      (listJob words : Job File Bool) := by
  have listed : Realizes (Presents resolve keys) (do
      let machine ← get
      terminalShowDriveRoot (Volume.firmware resolve device) machine.terminal.currentDrive
      return false) (do
      modify fun workspace =>
        { workspace with shown := workspace.shown ++ [.listing workspace.drive] }
      return false : Job File Bool) := by
    apply realizes_update
    intro machine workspace presents
    obtain ⟨shown, after, ran, displays, unasked, allowed⟩ := run_terminalShowDriveRoot keyboard
      records presents.calm presents.locates presents.writes presents.table
      machine.terminal.currentDrive
    rw [presents.drive] at allowed
    refine ⟨after, ?_, presents.appears (.more presents.shown allowed) displays unasked⟩
    have entered : (get : Routine (Volume File × τ) _).run machine = .ok (machine, machine) := rfl
    rw [run_bind_of_ok entered, run_bind_of_ok ran]
    rfl
  rw [listDrive, changeDrive_words, listJob]
  cases found : words[1]?.bind driveOf with
  | none => exact listed
  | some drive =>
    obtain ⟨word, _, named⟩ := Option.bind_eq_some_iff.mp found
    have moves : Realizes (Presents resolve keys)
        (modifyTerminal fun terminal =>
          terminalSetDrive drive { terminal with currentDrive := drive })
        (modify (·.onDrive drive) : Job File Unit) :=
      realizes_settings fun (machine : Machine (Volume File × τ)) _ presents =>
        presents.onDrive drive (driveOf_letter named)
    simp only [bind_assoc, pure_bind]
    exact moves.bind fun _ => listed

end Directory

end ExistentOS.Terminal
