import ExistentOS.Accounts.Operations
import ExistentOS.Boot.LoadKernel
import ExistentOS.Eosfs
import ExistentOS.Library.Custody

/-!
# File handles

A file handle is opened by a successful `OpenVolume` or `Open` that hands back a pointer, and closed
by `Close` and by `Delete`, whatever they answer. The routines that open files close what they open,
on every path on which they return.
-/

namespace ExistentOS

open Programs Terminated Custody Accounts Eosfs Boot

variable {σ α β : Type}

/-- The handle that an answer hands back. An error or a null pointer hands back none. -/
def openedHandle (answer : EfiStatus × Handle) : Option Handle :=
  if efiError answer.1 ∨ answer.2 = 0 then none else some answer.2

/-- What the calls of the firmware do to file handles. Locating and allocating are no business of
this book. -/
def fileBook : Book Event Handle where
  opens
    | .openVolume _ answer => openedHandle answer
    | .openFile _ _ _ _ answer => openedHandle answer
    | _ => none
  uses
    | .openFile root _ _ _ _ => some root
    | .close file _ => some file
    | .delete file _ => some file
    | .read file _ _ _ => some file
    | .write file _ _ => some file
    | .setPosition file _ _ => some file
    | .flush file _ => some file
    | _ => none
  closes
    | .close file _ => some file
    | .delete file _ => some file
    | _ => none
  operates := by
    intro event handle closing
    cases event <;> simp_all

/-- The routine needs these file handles and leaves those, whatever else is open. -/
abbrev Handles (before : Multiset Handle) (routine : Routine σ α)
    (after : α → Multiset Handle) : Prop := fileBook.Passes Machine.trace before routine after

/-- The routine closes the file handles that it opens, and needs none from before. -/
abbrev Tidy (routine : Routine σ α) : Prop := Handles 0 routine fun _ => 0

/-- Whenever the routine returns, it has closed every file handle that it has opened as often as it
has opened it, and it has called nothing with a handle that was not open. -/
abbrev ClosesFiles (routine : Routine σ α) : Prop :=
  Traces.Logs Machine.trace routine fun _ events => fileBook.Disciplined events

/-- Tidy routines close their files. The book of such a routine balances, event by event. -/
theorem closesFiles_of_tidy {routine : Routine σ α} (tidy : Tidy routine) : ClosesFiles routine :=
  Book.disciplined_of_passes tidy

/-! ## Calls -/

section Calls

variable {before : Multiset Handle} {after : α → Multiset Handle}

/-- A call does to handles what its event does. -/
theorem handles_call {operation : σ → α × σ} {event : α → Event}
    (stepped : ∀ answer rest,
      fileBook.step (before + rest) (event answer) = some (after answer + rest)) :
    Handles before (call operation event) after := by
  intro rest
  apply logs_call
  intro state
  refine ⟨_, ?_, rfl⟩
  simp [Traces.check, stepped]

/-- A call that has nothing to do with file handles. -/
theorem tidy_call {operation : σ → α × σ} {event : α → Event}
    (acts : ∀ answer, fileBook.acts (event answer) = (none, none, none)) :
    Tidy (call operation event) := by
  apply handles_call
  intro answer rest
  simp [fileBook.step_of_acts (acts answer)]

/-- A call that operates on an open file. -/
theorem handles_use {file : Handle} {operation : σ → α × σ} {event : α → Event}
    (acts : ∀ answer, fileBook.acts (event answer) = (none, some file, none)) :
    Handles {file} (call operation event) fun _ => {file} := by
  apply handles_call
  intro answer rest
  simp [fileBook.step_of_acts (acts answer)]

/-- A call that closes an open file, and leaves all others open. -/
theorem handles_end {file : Handle} {operation : σ → α × σ} {event : α → Event}
    (acts : ∀ answer, fileBook.acts (event answer) = (none, some file, some file)) :
    Handles {file} (call operation event) fun _ => 0 := by
  apply handles_call
  intro answer rest
  simp [fileBook.step_of_acts (acts answer)]

variable (fw : Firmware σ)

/-- Locating a protocol hands back an interface, which is not a file handle. -/
theorem tidy_locateProtocol : Tidy (locateProtocol fw) := tidy_call fun _ => rfl

/-- Writing on the console touches no file handle. -/
theorem tidy_outputString (shown : Text) : Tidy (outputString fw shown) :=
  tidy_call fun _ => rfl

/-- Polling the keyboard touches no file handle. -/
theorem tidy_readKeyStroke : Tidy (readKeyStroke fw) := tidy_call fun _ => rfl

/-- Allocating pages touches no file handle. -/
theorem tidy_allocatePages (kind memoryType : UInt32) (pages : Nat) (address : UInt64) :
    Tidy (allocatePages fw kind memoryType pages address) := tidy_call fun _ => rfl

/-- Opening the volume leaves the root open where the firmware hands one back, and nothing where
it fails. A success with a null root opens nothing that could be closed. -/
theorem handles_openVolume (fs : Handle) :
    Handles 0 (openVolume fw fs) fun answer => Book.only (openedHandle answer) := by
  apply handles_call
  intro answer rest
  simp [Book.step, fileBook]

/-- Opening a file needs the directory it is opened in, which stays open beside what the firmware
hands back. -/
theorem handles_openFile (root : Handle) (path : Text) (mode attributes : UInt64) :
    Handles {root} (openFile fw root path mode attributes)
      fun answer => Book.only (openedHandle answer) + {root} := by
  apply handles_call
  intro answer rest
  simp [Book.step, fileBook, add_assoc]

/-- Closing takes the handle away, whatever status the firmware answers. -/
theorem handles_closeFile (file : Handle) : Handles {file} (closeFile fw file) fun _ => 0 :=
  handles_end fun _ => rfl

/-- Deleting takes the handle away as closing does. The interface closes the handle even where it
could not delete the file. -/
theorem handles_deleteFile (file : Handle) : Handles {file} (deleteFile fw file) fun _ => 0 :=
  handles_end fun _ => rfl

/-- Reading needs the file and leaves it open. An answer longer than the buffer stops the
routine, which then owes nothing. -/
theorem handles_readFile (file : Handle) (size : Nat) :
    Handles {file} (readFile fw file size) fun _ => {file} :=
  Book.passes_bind (handles_use fun _ => rfl) fun _ =>
    Book.passes_ite (fun _ => Book.passes_keep) fun _ => Book.passes_throw Stop.overrun

/-- Reading into physical memory needs the file and leaves it open. -/
theorem handles_readPhysical (file : Handle) (address : UInt64) (size : Nat) :
    Handles {file} (readPhysical fw file address size) fun _ => {file} :=
  handles_use fun _ => rfl

/-- Writing needs the file and leaves it open. -/
theorem handles_writeFile (file : Handle) (bytes : List UInt8) :
    Handles {file} (writeFile fw file bytes) fun _ => {file} := handles_use fun _ => rfl

/-- Moving the position needs the file and leaves it open. -/
theorem handles_setPosition (file : Handle) (position : UInt64) :
    Handles {file} (setPosition fw file position) fun _ => {file} :=
  handles_use fun _ => rfl

/-- Flushing needs the file and leaves it open. -/
theorem handles_flushFile (file : Handle) : Handles {file} (flushFile fw file) fun _ => {file} :=
  Book.passes_ite (fun _ => Book.passes_bind (handles_use fun _ => rfl)
    fun _ => Book.passes_keep) fun _ => Book.passes_keep

end Calls

/-! ## Steps without calls -/

/-- A change of the machine that is not recorded. -/
theorem tidy_modify {update : Machine σ → Machine σ}
    (unrecorded : ∀ machine, (update machine).trace = machine.trace) :
    Tidy (modify update : Routine σ PUnit) := by
  intro rest
  rintro machine _ _ ⟨rfl⟩
  exact ⟨[], by rw [unrecorded, List.append_nil], _, rfl, rfl⟩

/-- A record of what is no call. -/
theorem tidy_note {event : Event} (acts : fileBook.acts event = (none, none, none)) :
    Tidy (note event : Routine σ Unit) := by
  intro rest
  rintro machine _ _ ⟨rfl⟩
  refine ⟨[event], rfl, rest, ?_, (zero_add rest).symm⟩
  simp [Traces.check, fileBook.step_of_acts acts]

/-- Changing the table of accounts calls no firmware. -/
theorem tidy_modifyAccounts (update : AccountStorage → AccountStorage) :
    Tidy (modifyAccounts update : Routine σ Unit) := tidy_modify fun _ => rfl

/-- Changing the variables of the terminal calls no firmware. -/
theorem tidy_modifyTerminal (update : TerminalStorage → TerminalStorage) :
    Tidy (modifyTerminal update : Routine σ Unit) := tidy_modify fun _ => rfl

/-- A routine that stops never returns, so it owes nothing. -/
theorem tidy_orStop (stop : Stop) (value : Option α) : Tidy (orStop stop value : Routine σ α) := by
  cases value with
  | none => exact Book.passes_throw stop
  | some found => exact Book.passes_keep

/-- An overrun opens nothing. -/
theorem tidy_orOverrun (value : Option α) : Tidy (orOverrun value : Routine σ α) :=
  tidy_orStop .overrun value

/-- A fault opens nothing. -/
theorem tidy_orFault (value : Option α) : Tidy (orFault value : Routine σ α) :=
  tidy_orStop .fault value

/-- What follows a step without handles has the handles that the step was given. -/
theorem handles_after {before : Multiset Handle} {after : β → Multiset Handle}
    {first : Routine σ α} {next : α → Routine σ β} (head : Tidy first)
    (tail : ∀ value, Handles before (next value) after) : Handles before (first >>= next) after :=
  Book.passes_bind (Book.passes_within head before) tail

/-- A file is closed while others stay open. -/
theorem handles_closeOne (fw : Firmware σ) (file : Handle) (others : Multiset Handle) :
    Handles ({file} + others) (closeFile fw file) fun _ => others := by
  have framed := Book.passes_frame (handles_closeFile fw file) others
  simpa only [zero_add] using framed

/-! ## Routines -/

section Routines

variable (fw : Firmware σ)

/-- Opening a file on the volume leaves the file open that it returns, and the root closed. -/
theorem handles_openOnVolume (path : Memory) (mode attributes : UInt64) :
    Handles 0 (openOnVolume fw path mode attributes) Book.only := by
  have root : ∀ volume : Handle, Handles {volume} (do
      let name ← orOverrun (scan path)
      let opened ← openFile fw volume name mode attributes
      let _ ← closeFile fw volume
      if ¬ efiError opened.1 ∧ opened.2 ≠ 0 then return some opened.2
      return none) Book.only := by
    intro volume
    apply handles_after (tidy_orOverrun (scan path))
    intro name
    apply Book.passes_bind (handles_openFile fw volume name mode attributes)
    intro opened
    rw [add_comm]
    apply Book.passes_bind (handles_closeOne fw volume (Book.only (openedHandle opened)))
    intro _
    apply Book.passes_ite
    · rintro ⟨good, nonzero⟩
      exact Book.passes_pure (by simp [openedHandle, good, nonzero])
    · intro failed
      have unopened : efiError opened.1 = true ∨ opened.2 = 0 := by
        by_contra neither
        push Not at neither
        exact failed neither
      exact Book.passes_pure (by simp [openedHandle, unopened])
  apply Book.passes_view
  intro machine
  apply Book.passes_ite
  · intro _
    apply handles_after (tidy_locateProtocol fw)
    intro located
    refine Book.passes_ite (fun _ => Book.passes_pure rfl) fun _ => ?_
    apply Book.passes_bind (handles_openVolume fw located.2)
    intro volume
    apply Book.passes_ite
    · intro failed
      exact Book.passes_pure (by simp [openedHandle, failed])
    · intro succeeded
      apply Book.passes_ite
      · intro _
        exact Book.passes_bind (Book.passes_throw Stop.null) fun _ => root volume.2
      · intro nonzero
        have opened : openedHandle volume = some volume.2 := by simp [openedHandle, succeeded, nonzero]
        rw [opened]
        exact root volume.2
  · intro _
    exact Book.passes_pure rfl

/-- A routine that closes the file it has opened, if there is one. -/
theorem tidy_opened {path : Memory} {mode attributes : UInt64} {next : Option Handle → Routine σ α}
    (absent : Tidy (next none)) (present : ∀ file, Handles {file} (next (some file)) fun _ => 0) :
    Tidy (openOnVolume fw path mode attributes >>= next) := by
  apply Book.passes_bind (handles_openOnVolume fw path mode attributes)
  intro opened
  cases opened with
  | none => exact absent
  | some file => exact present file

/-- A routine that closes the root of the volume, if it can be opened. -/
theorem tidy_mounted {fs : Handle} {refusal : EfiStatus × Handle → α}
    {next : EfiStatus × Handle → Routine σ α}
    (present : ∀ volume, Handles {volume.2} (next volume) fun _ => 0) : Tidy (do
      let volume ← openVolume fw fs
      if efiError volume.1 ∨ volume.2 = 0 then return refusal volume else next volume) := by
  apply Book.passes_bind (handles_openVolume fw fs)
  intro volume
  apply Book.passes_ite
  · intro failed
    have unopened : openedHandle volume = none := if_pos failed
    rw [unopened]
    exact Book.passes_keep
  · intro succeeded
    have opened : openedHandle volume = some volume.2 := if_neg succeeded
    rw [opened]
    exact present volume

/-- Closing the last file leaves a routine that owes nothing. -/
theorem handles_closing {file : Handle} {result : α} :
    Handles {file} (do let _ ← closeFile fw file; return result) fun _ => 0 :=
  Book.passes_bind (handles_closeFile fw file) fun _ => Book.passes_keep

/-- `accounts_save` closes what it opens, also behind a failed positioning or a short write. -/
theorem tidy_accountsSave : Tidy (accountsSave fw) := by
  refine tidy_opened fw Book.passes_keep fun file => ?_
  apply Book.passes_view
  intro machine
  apply Book.passes_bind (handles_setPosition fw file 0)
  intro positioned
  apply Book.passes_ite (fun _ => handles_closing fw)
  intro _
  apply Book.passes_bind (handles_writeFile fw file _)
  intro written
  apply Book.passes_ite (fun _ => handles_closing fw)
  intro _
  exact Book.passes_bind (handles_flushFile fw file) fun _ => handles_closing fw

/-- `accounts_load` closes what it opens, also where it adopts nothing. -/
theorem tidy_accountsLoad : Tidy (accountsLoad fw) := by
  refine tidy_opened fw Book.passes_keep fun file => ?_
  apply Book.passes_bind (handles_readFile fw file storeWidth)
  intro answer
  apply handles_after (tidy_orStop .unset (delivered answer))
  intro found
  cases found with
  | none => exact handles_closing fw
  | some record => exact handles_after (tidy_modifyAccounts _) fun _ => handles_closing fw

/-- The rounds over a directory leave it open. -/
theorem handles_readEntryRound (root : Handle) (maxEntries : Nat)
    (current : List UInt8 × List ListedEntry) :
    Handles {root} (readEntryRound fw root maxEntries current) fun _ => {root} := by
  apply Book.passes_ite
  · intro _
    apply Book.passes_bind (handles_readFile fw root recordBufferSize)
    intro answer
    apply Book.passes_ite (fun _ => Book.passes_keep)
    intro _
    apply handles_after (tidy_orStop .unset _)
    intro first
    apply Book.passes_ite (fun _ => Book.passes_keep)
    intro _
    apply handles_after (tidy_orStop .unset _)
    intro name
    exact handles_after (tidy_orStop .unset _) fun _ => Book.passes_keep
  · intro _
    exact Book.passes_keep

/-- Reading the entries of the volume closes the root on every path past its opening. The loop in
between operates on the root alone. -/
theorem tidy_eosfsReadDiskEntries (maxEntries : Nat) :
    Tidy (eosfsReadDiskEntries fw maxEntries) := by
  apply Book.passes_view
  intro machine
  cases machine.gBS with
  | none => exact Book.passes_keep
  | some services =>
    apply Book.passes_ite (fun _ => Book.passes_keep)
    intro _
    apply Book.passes_ite
    · intro _
      apply handles_after (tidy_locateProtocol fw)
      intro located
      apply Book.passes_ite (fun _ => Book.passes_keep)
      intro _
      refine tidy_mounted fw fun volume => ?_
      have rounds : Handles {volume.2} (iterate .outOfFuel (readEntryRound fw volume.2 maxEntries)
          (maxEntries + 1) ([], [])) fun _ => {volume.2} := by
        apply Book.passes_iterate
        intro current
        apply (handles_readEntryRound fw volume.2 maxEntries current).mono
        rintro (next | entries) <;> rfl
      exact Book.passes_bind rounds fun entries => handles_closing fw
    · intro _
      exact Book.passes_throw Stop.null

/-- `eosfs_list_path` closes what it opens. The entry table needs no file. -/
theorem tidy_eosfsListPath (maxEntries : Nat) : Tidy (eosfsListPath fw maxEntries) := by
  apply Book.passes_ite (fun _ => Book.passes_keep)
  intro _
  apply handles_after (tidy_eosfsReadDiskEntries fw maxEntries)
  intro listed
  cases listed with
  | some entries => exact Book.passes_keep
  | none => exact Book.passes_view fun _ => Book.passes_keep

/-- The kernel file stays open while its image is read. -/
theorem handles_readKernel (kernel : Handle) :
    Handles {kernel} (readKernel fw kernel) fun _ => {kernel} := by
  apply handles_after (tidy_allocatePages fw _ _ _ _)
  intro allocated
  apply Book.passes_ite (fun _ => Book.passes_keep)
  intro _
  apply handles_after
  · exact tidy_modify fun _ => rfl
  intro _
  apply Book.passes_bind (handles_readPhysical fw kernel allocated.2 kernelMaxBytes)
  intro answer
  apply handles_after
  · exact tidy_modify fun _ => rfl
  · exact fun _ => Book.passes_keep

/-- The kernel file is closed before its root. -/
theorem handles_loadFromRoot (root : Handle) :
    Handles {root} (loadFromRoot fw root) fun _ => 0 := by
  apply handles_after (tidy_orFault _)
  intro name
  apply Book.passes_bind (handles_openFile fw root name efiFileModeRead 0)
  intro opened
  apply Book.passes_ite
  · intro failed
    have unopened : openedHandle opened = none := if_pos failed
    rw [unopened, Book.only_none, zero_add]
    exact handles_closing fw
  · intro succeeded
    have kernel : openedHandle opened = some opened.2 := if_neg succeeded
    rw [kernel, Book.only_some]
    apply Book.passes_bind (Book.passes_frame (handles_readKernel fw opened.2) {root})
    intro status
    exact Book.passes_bind (handles_closeOne fw opened.2 {root}) fun _ => handles_closing fw

/-- `efi_load_kernel` closes what it opens, on each of its early ends. -/
theorem tidy_efiLoadKernel : Tidy (efiLoadKernel fw) := by
  apply Book.passes_view
  intro machine
  apply Book.passes_ite
  · intro _
    apply handles_after (tidy_locateProtocol fw)
    intro located
    apply Book.passes_ite (fun _ => Book.passes_keep)
    intro _
    exact tidy_mounted fw fun volume => handles_loadFromRoot fw volume.2
  · intro _
    exact Book.passes_keep

end Routines

end ExistentOS
