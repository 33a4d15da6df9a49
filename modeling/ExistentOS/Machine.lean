import ExistentOS.Library.Traces
import ExistentOS.Storage

/-!
# The running loader

A machine is the whole state of the loader: the firmware, the static variables,
the physical memory and the observable steps so far. Routines are programs over
a machine. They stop when the source would leave its buffers, follow a null
function pointer or read a unit it never wrote, and when a loop without a bound
in the source has used up its fuel.

Each firmware call is one step: it advances the firmware, records the call with
its answer and changes nothing else.
-/

namespace ExistentOS

open Programs

/-- Why a routine stops without returning: it leaves a field of the static storage, it leaves a
buffer of its own or reads an argument that was not set, it reads a local variable that was never
written, it follows a null pointer, or a loop has used up its fuel. -/
inductive Stop where
  | fault
  | overrun
  | unset
  | null
  | outOfFuel
  deriving DecidableEq, Repr

/-- The state of the loader: the firmware, what has been called and noted so far, the pointers it
was entered with, the static variables of its modules, and the physical memory. -/
structure Machine (σ : Type) where
  firmware : σ
  trace : List Event
  gImageHandle : Handle
  gST : Option SystemTable
  gBS : Option BootServices
  accounts : AccountStorage
  eosfs : EosfsStorage
  terminal : TerminalStorage
  memory : UInt64 → UInt8
  memoryMapBuffer : Nat → UInt8

/-- A firmware over any state without input, whose other calls fail. Samples replace the calls
they need. -/
def Firmware.inert {σ : Type} : Firmware σ where
  hasFlush _ := true
  locateProtocol := fun state => ((efiNotFound, 0), state)
  openVolume := fun _ state => ((efiNotFound, 0), state)
  openFile := fun _ _ _ _ state => ((efiNotFound, 0), state)
  close := fun _ state => (efiSuccess, state)
  delete := fun _ state => (efiDeviceError, state)
  read := fun _ _ state => (⟨efiSuccess, 0, []⟩, state)
  write := fun _ _ state => ((efiDeviceError, 0), state)
  setPosition := fun _ _ state => (efiDeviceError, state)
  flush := fun _ state => (efiSuccess, state)
  outputString := fun _ state => (efiSuccess, state)
  readKeyStroke := fun state => ((efiNotFound, none), state)
  allocatePages := fun _ _ _ address state => ((efiNotFound, address), state)
  getMemoryMap := fun _ state => (⟨efiDeviceError, 0, [], 0, 0, 0⟩, state)
  exitBootServices := fun _ _ state => (efiInvalidParameter, state)

/-- The machine at the entry of the loader, with every service available and the
static storage as loaded. -/
def Machine.entered {σ : Type} (firmware : σ) : Machine σ where
  firmware := firmware
  trace := []
  gImageHandle := 1
  gST := some ⟨true, true, some ⟨true, true, true, true⟩⟩
  gBS := some ⟨true, true, true, true⟩
  accounts := initialAccounts
  eosfs := initialEosfs
  terminal := initialTerminal
  memory := fun _ => 0
  memoryMapBuffer := fun _ => 0

/-- A routine of the loader: it returns a value in a later state, or stops for a reason. -/
abbrev Routine (σ α : Type) := Program (Machine σ) Stop α

variable {σ α : Type}

/-- A value, or a stop where there is none. It is how a definition that may fail enters a
routine. -/
def orStop (stop : Stop) : Option α → Routine σ α
  | some value => pure value
  | none => throw stop

/-- A value the source can only obtain within its static storage. -/
def orFault (value : Option α) : Routine σ α := orStop .fault value

/-- A value the source can only obtain within its buffers and arguments. -/
def orOverrun (value : Option α) : Routine σ α := orStop .overrun value

/-- Record a step that is not a firmware call. The source knows nothing of it. -/
def note (event : Event) : Routine σ Unit :=
  modify fun machine => { machine with trace := machine.trace ++ [event] }

/-- The machine after a firmware call: the firmware has another state, and the event is recorded. -/
def Machine.called (machine : Machine σ) (firmware : σ) (event : Event) : Machine σ :=
  { machine with firmware := firmware, trace := machine.trace ++ [event] }

/-- Perform one firmware call and record it with its answer. This is the only way in which the
firmware changes. -/
def call (operation : σ → α × σ) (event : α → Event) : Routine σ α := do
  let machine ← get
  let answer := operation machine.firmware
  set (machine.called answer.2 (event answer.1))
  return answer.1

/-- The machine with another account storage, and otherwise as it is. -/
def Machine.withAccounts (machine : Machine σ) (storage : AccountStorage) : Machine σ :=
  { machine with accounts := storage }

/-- Update the account storage. -/
def modifyAccounts (update : AccountStorage → AccountStorage) : Routine σ Unit :=
  modify fun machine => machine.withAccounts (update machine.accounts)

/-- Update the entry table. -/
def modifyEosfs (update : EosfsStorage → EosfsStorage) : Routine σ Unit :=
  modify fun machine => { machine with eosfs := update machine.eosfs }

/-- Update the terminal storage. -/
def modifyTerminal (update : TerminalStorage → TerminalStorage) : Routine σ Unit :=
  modify fun machine => { machine with terminal := update machine.terminal }

/-! ## Firmware calls -/

section Calls

variable (fw : Firmware σ)

/-- `gBS->LocateProtocol`, for the file system. -/
def locateProtocol : Routine σ (EfiStatus × Handle) := call fw.locateProtocol .locateProtocol

/-- `fs->OpenVolume`. -/
def openVolume (fs : Handle) : Routine σ (EfiStatus × Handle) :=
  call (fw.openVolume fs) (.openVolume fs)

/-- `root->Open`. -/
def openFile (root : Handle) (path : Text) (mode attributes : UInt64) :
    Routine σ (EfiStatus × Handle) :=
  call (fw.openFile root path mode attributes) (.openFile root path mode attributes)

/-- `file->Close`. -/
def closeFile (file : Handle) : Routine σ EfiStatus := call (fw.close file) (.close file)

/-- `file->Delete`. -/
def deleteFile (file : Handle) : Routine σ EfiStatus := call (fw.delete file) (.delete file)

/-- `Read` into a local buffer of the given size. A firmware that stores more
bytes than it was given room for leaves the buffer. -/
def readFile (file : Handle) (size : Nat) : Routine σ ReadAnswer := do
  let answer ← call (fw.read file size) (.read file .buffer size)
  if answer.bytes.length ≤ size then return answer else throw .overrun

/-- `Read` into physical memory. Nothing bounds it, so the routine has to say what becomes of the
memory. -/
def readPhysical (file : Handle) (address : UInt64) (size : Nat) : Routine σ ReadAnswer :=
  call (fw.read file size) (.read file (.physical address) size)

/-- `file->Write`. The answer has a status and the number of bytes that were stored. -/
def writeFile (file : Handle) (bytes : List UInt8) : Routine σ (EfiStatus × Nat) :=
  call (fw.write file bytes) (.write file bytes)

/-- `file->SetPosition`. -/
def setPosition (file : Handle) (position : UInt64) : Routine σ EfiStatus :=
  call (fw.setPosition file position) (.setPosition file position)

/-- `if (file->Flush) file->Flush(file)`. The status is not looked at. -/
def flushFile (file : Handle) : Routine σ Unit := do
  if fw.hasFlush file then
    let _ ← call (fw.flush file) (.flush file)
    return ()
  else return ()

/-- `ConOut->OutputString`. -/
def outputString (text : Text) : Routine σ EfiStatus :=
  call (fw.outputString text) (.outputString text)

/-- `ConIn->ReadKeyStroke`. There may be no key. -/
def readKeyStroke : Routine σ (EfiStatus × Option CHAR16) := call fw.readKeyStroke .readKeyStroke

/-- `gBS->AllocatePages`. -/
def allocatePages (kind memoryType : UInt32) (pages : Nat) (address : UInt64) :
    Routine σ (EfiStatus × UInt64) :=
  call (fw.allocatePages kind memoryType pages address) (.allocatePages pages address)

/-- `gBS->GetMemoryMap`, for a buffer of the given size. -/
def getMemoryMap (size : Nat) : Routine σ MemoryMapAnswer :=
  call (fw.getMemoryMap size) (.getMemoryMap size)

/-- `gBS->ExitBootServices`. -/
def exitBootServices (image : Handle) (mapKey : Nat) : Routine σ EfiStatus :=
  call (fw.exitBootServices image mapKey) (.exitBootServices image mapKey)

end Calls

/-! ## Meaning of the steps -/

section Meaning

variable {Q : α → Machine σ → Prop} {E : Stop → Prop} {machine : Machine σ}

/-- A missing value stops for the given reason. A value that is there is handed on, and the state
is the same. -/
@[simp] theorem wp_orStop (stop : Stop) (value : Option α) :
    wp (orStop stop value : Routine σ α) Q E machine ↔
      (∀ found, value = some found → Q found machine) ∧ (value = none → E stop) := by
  cases value <;> simp [orStop]

/-- A missing value is a fault. -/
@[simp] theorem wp_orFault (value : Option α) :
    wp (orFault value : Routine σ α) Q E machine ↔
      (∀ found, value = some found → Q found machine) ∧ (value = none → E .fault) :=
  wp_orStop .fault value

/-- A missing value is an overrun. -/
@[simp] theorem wp_orOverrun (value : Option α) :
    wp (orOverrun value : Routine σ α) Q E machine ↔
      (∀ found, value = some found → Q found machine) ∧ (value = none → E .overrun) :=
  wp_orStop .overrun value

/-- A value that is there is handed on. -/
theorem run_orOverrun_bind {β : Type} (value : α) (next : α → Routine σ β) (machine : Machine σ) :
    (orOverrun (some value) >>= next).run machine = (next value).run machine := rfl

/-- A call continues with the answer of the firmware, which it has recorded. -/
@[simp] theorem wp_call (operation : σ → α × σ) (event : α → Event) :
    wp (call operation event) Q E machine ↔
      Q (operation machine.firmware).1
        (machine.called (operation machine.firmware).2 (event (operation machine.firmware).1)) :=
  Iff.rfl

/-- A note is recorded and changes nothing else. -/
@[simp] theorem wp_note (event : Event) (Q : Unit → Machine σ → Prop) :
    wp (note event) Q E machine ↔ Q () { machine with trace := machine.trace ++ [event] } :=
  Iff.rfl

/-- Changing the table of accounts changes nothing else. -/
@[simp] theorem wp_modifyAccounts (update : AccountStorage → AccountStorage)
    (Q : Unit → Machine σ → Prop) :
    wp (modifyAccounts update) Q E machine ↔
      Q () (machine.withAccounts (update machine.accounts)) := Iff.rfl

/-- Changing the entry table changes nothing else. -/
@[simp] theorem wp_modifyEosfs (update : EosfsStorage → EosfsStorage)
    (Q : Unit → Machine σ → Prop) :
    wp (modifyEosfs update) Q E machine ↔ Q () { machine with eosfs := update machine.eosfs } :=
  Iff.rfl

/-- Changing the terminal storage changes nothing else. -/
@[simp] theorem wp_modifyTerminal (update : TerminalStorage → TerminalStorage)
    (Q : Unit → Machine σ → Prop) :
    wp (modifyTerminal update) Q E machine ↔
      Q () { machine with terminal := update machine.terminal } := Iff.rfl

end Meaning

/-! ## What routines add to the trace -/

section Logs

open Traces

variable {Q : α → List Event → Prop}

/-- A call appends its event, whatever the firmware answers. -/
theorem logs_call (operation : σ → α × σ) (event : α → Event)
    (answered : ∀ state, Q (operation state).1 [event (operation state).1]) :
    Logs Machine.trace (call operation event) Q := by
  rintro machine _ _ ⟨rfl⟩
  exact ⟨[event (operation machine.firmware).1], rfl, answered machine.firmware⟩

/-- Handing a value on records nothing. -/
theorem logs_orStop (stop : Stop) {value : Option α}
    (found : ∀ result, value = some result → Q result []) :
    Logs Machine.trace (orStop stop value : Routine σ α) Q := by
  cases value with
  | none => exact logs_throw stop
  | some result => exact logs_pure (found result rfl)

/-- Known data are handed on, and nothing is recorded for it. -/
theorem logs_orOverrun {β : Type} {value : Option β} {result : β} (known : value = some result)
    {next : β → Routine σ α} (rest : Logs Machine.trace (next result) Q) :
    Logs Machine.trace (orOverrun value >>= next) Q := by
  rw [known]
  exact rest

end Logs

/-- The later machine differs from the earlier one at most in the firmware and
the recorded steps. -/
def OnlyFirmware (before after : Machine σ) : Prop :=
  ∃ firmware trace, after = { before with firmware := firmware, trace := trace }

instance : Std.Refl (OnlyFirmware (σ := σ)) := ⟨fun machine => ⟨machine.firmware, machine.trace, rfl⟩⟩

instance : IsTrans (Machine σ) OnlyFirmware := ⟨by
  rintro first _ _ ⟨_, _, rfl⟩ ⟨firmware, trace, rfl⟩
  exact ⟨firmware, trace, rfl⟩⟩

/-- Frames compose: what two steps leave as it is, they leave so together. -/
theorem OnlyFirmware.then {first second third : Machine σ} (before : OnlyFirmware first second)
    (behind : OnlyFirmware second third) : OnlyFirmware first third :=
  IsTrans.trans first second third before behind

/-- A firmware call changes only the firmware and the recorded steps. -/
theorem called_onlyFirmware (machine : Machine σ) (firmware : σ) (event : Event) :
    OnlyFirmware machine (machine.called firmware event) :=
  ⟨firmware, machine.trace ++ [event], rfl⟩

/-- Where only the firmware changes, the table of accounts is the same. -/
theorem OnlyFirmware.accounts {before after : Machine σ} (frame : OnlyFirmware before after) :
    after.accounts = before.accounts := by
  obtain ⟨_, _, rfl⟩ := frame
  rfl

/-- A frame does not depend on the account storage. -/
theorem OnlyFirmware.withAccounts {before after : Machine σ} (frame : OnlyFirmware before after)
    (storage : AccountStorage) :
    OnlyFirmware (before.withAccounts storage) (after.withAccounts storage) := by
  obtain ⟨firmware, trace, rfl⟩ := frame
  exact ⟨firmware, trace, rfl⟩

section CalledFields

variable (machine : Machine σ) (firmware : σ) (event : Event)

@[simp] theorem called_firmware : (machine.called firmware event).firmware = firmware := rfl
@[simp] theorem called_trace : (machine.called firmware event).trace = machine.trace ++ [event] :=
  rfl
@[simp] theorem called_gImageHandle :
    (machine.called firmware event).gImageHandle = machine.gImageHandle := rfl
@[simp] theorem called_gST : (machine.called firmware event).gST = machine.gST := rfl
@[simp] theorem called_gBS : (machine.called firmware event).gBS = machine.gBS := rfl
@[simp] theorem called_accounts : (machine.called firmware event).accounts = machine.accounts := rfl
@[simp] theorem called_eosfs : (machine.called firmware event).eosfs = machine.eosfs := rfl
@[simp] theorem called_terminal : (machine.called firmware event).terminal = machine.terminal := rfl
@[simp] theorem called_memory : (machine.called firmware event).memory = machine.memory := rfl
@[simp] theorem called_memoryMapBuffer :
    (machine.called firmware event).memoryMapBuffer = machine.memoryMapBuffer := rfl

end CalledFields

section WithAccountsFields

variable (machine : Machine σ) (storage : AccountStorage)

@[simp] theorem withAccounts_accounts : (machine.withAccounts storage).accounts = storage := rfl
@[simp] theorem withAccounts_firmware :
    (machine.withAccounts storage).firmware = machine.firmware := rfl
@[simp] theorem withAccounts_trace : (machine.withAccounts storage).trace = machine.trace := rfl
@[simp] theorem withAccounts_gBS : (machine.withAccounts storage).gBS = machine.gBS := rfl
@[simp] theorem withAccounts_terminal :
    (machine.withAccounts storage).terminal = machine.terminal := rfl
@[simp] theorem withAccounts_same : machine.withAccounts machine.accounts = machine := rfl
@[simp] theorem withAccounts_twice (other : AccountStorage) :
    (machine.withAccounts storage).withAccounts other = machine.withAccounts other := rfl

end WithAccountsFields

end ExistentOS
