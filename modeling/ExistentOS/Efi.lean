import Mathlib.Data.UInt

/-!
# The firmware interface of the loader

Constants and calls of `boot/efi.h`, as far as the loader uses them. A firmware
is any state with a response to each call: nothing here says what a call does,
only which values it hands back. Whatever the source passes or receives through
a pointer is passed or returned by value.

Pointers handed out by the firmware are numbers, zero being the null pointer. A
call may return a null pointer together with `EFI_SUCCESS`; what the source does
then is part of the model.
-/

namespace ExistentOS

/-- A UTF-16 code unit. -/
abbrev CHAR16 := UInt16

/-- The units of a string before its terminator. -/
abbrev Text := List CHAR16

/-- The units that can be read from a pointer, up to the end of its object or to
the first unit that was never written. -/
abbrev Memory := List CHAR16

/-- A firmware status. -/
abbrev EfiStatus := UInt64

/-- An interface or file pointer of the firmware; zero is null. -/
abbrev Handle := Nat

/-- The units of a literal. -/
def text (literal : String) : Text :=
  literal.toList.map fun character => UInt16.ofNat character.toNat

/-- A string constant of the source, with its terminator. -/
def constant (literal : String) : Memory := text literal ++ [0]

/-- A string literal ends with the terminator, as the compiler lays it out. -/
theorem constant_ends (literal : String) : (0 : CHAR16) ∈ constant literal :=
  List.mem_append_right (text literal) List.mem_cons_self

/-- The blank that separates words. -/
def space : CHAR16 := 0x20

/-- The other blank. `terminal_parse_command` treats both alike. -/
def tab : CHAR16 := 0x09

/-- The key that ends a line, and the first of the two units of a line end. -/
def carriageReturn : CHAR16 := 0x0D

/-- The second unit of a line end, and what ends the lines of a script. -/
def lineFeed : CHAR16 := 0x0A

/-- The key that takes back the last unit of a line. -/
def backspace : CHAR16 := 0x08

/-- `EFI_SUCCESS`. The status codes carry no error bit, because `efi.h` defines them without one. -/
def efiSuccess : EfiStatus := 0

/-- `EFI_INVALID_PARAMETER`, the answer to a stale key. -/
def efiInvalidParameter : EfiStatus := 2

/-- `EFI_ACCESS_DENIED`. -/
def efiAccessDenied : EfiStatus := 4

/-- `EFI_DEVICE_ERROR`. -/
def efiDeviceError : EfiStatus := 7

/-- `EFI_NOT_FOUND`. -/
def efiNotFound : EfiStatus := 14

/-- `EFI_LOAD_ERROR`, which the loader returns where it gives up by itself. -/
def efiLoadError : EfiStatus := 21

/-- `EFI_ERROR`: every status other than success. -/
def efiError (status : EfiStatus) : Bool := status ≠ efiSuccess

/-- `EFI_FILE_MODE_READ`. -/
def efiFileModeRead : UInt64 := 0x0000000000000001

/-- `EFI_FILE_MODE_WRITE`. -/
def efiFileModeWrite : UInt64 := 0x0000000000000002

/-- `EFI_FILE_MODE_CREATE`. A file opened with it need not exist before. -/
def efiFileModeCreate : UInt64 := 0x8000000000000000

/-- `EFI_FILE_DIRECTORY`, the attribute that makes a listed entry a directory. -/
def efiFileDirectory : UInt32 := 0x10

/-- `EFI_FILE_ARCHIVE`, the attribute of a file that the terminal creates. -/
def efiFileArchive : UInt64 := 0x20

/-- What a file `Read` hands back: its status, the size it reports and the bytes
it stored at the start of the buffer. -/
structure ReadAnswer where
  status : EfiStatus
  size : Nat
  bytes : List UInt8
  deriving DecidableEq, Repr

/-- What `GetMemoryMap` hands back through its five pointers. The map and its reported size are
separate, because nothing makes a firmware store what it reports. -/
structure MemoryMapAnswer where
  status : EfiStatus
  mapSize : Nat
  map : List UInt8
  mapKey : Nat
  descriptorSize : Nat
  descriptorVersion : UInt32
  deriving DecidableEq, Repr

/-- A firmware over a private state. Each call yields its answer and the next
state. `hasFlush` tells whether a file has a `Flush` function. A key stroke that
leaves the key structure unmodified has no unit. -/
structure Firmware (σ : Type) where
  hasFlush : Handle → Bool
  locateProtocol : σ → (EfiStatus × Handle) × σ
  openVolume : Handle → σ → (EfiStatus × Handle) × σ
  openFile : Handle → Text → UInt64 → UInt64 → σ → (EfiStatus × Handle) × σ
  close : Handle → σ → EfiStatus × σ
  delete : Handle → σ → EfiStatus × σ
  read : Handle → Nat → σ → ReadAnswer × σ
  write : Handle → List UInt8 → σ → (EfiStatus × Nat) × σ
  setPosition : Handle → UInt64 → σ → EfiStatus × σ
  flush : Handle → σ → EfiStatus × σ
  outputString : Text → σ → EfiStatus × σ
  readKeyStroke : σ → (EfiStatus × Option CHAR16) × σ
  allocatePages : UInt32 → UInt32 → Nat → UInt64 → σ → (EfiStatus × UInt64) × σ
  getMemoryMap : Nat → σ → MemoryMapAnswer × σ
  exitBootServices : Handle → Nat → σ → EfiStatus × σ

/-- The function pointers of the boot services table that the loader tests. Whether they are null
is all that the tests see. -/
structure BootServices where
  locateProtocol : Bool
  allocatePages : Bool
  getMemoryMap : Bool
  exitBootServices : Bool
  deriving DecidableEq, Repr

/-- The parts of the system table in use. The console flags say that the
protocol and its function are both present. -/
structure SystemTable where
  outputString : Bool
  readKeyStroke : Bool
  bootServices : Option BootServices
  deriving DecidableEq, Repr

/-- Where a `Read` stores its bytes: in a local buffer or at a physical address. -/
inductive Destination where
  | buffer
  | physical (address : UInt64)
  deriving DecidableEq, Repr

/-- `kernel_boot_info_t`, the total of the usable memory and the pointer to the ACPI tables. -/
structure BootInfo where
  memoryBytes : UInt64
  rsdp : Handle
  deriving DecidableEq, Repr

/-- One observable step of the loader: a firmware call with its answer, or the
jump into the kernel. The last event is not a step of the source; it records which
command the interpreter dispatches, with all the words of its line. -/
inductive Event where
  | locateProtocol (answer : EfiStatus × Handle)
  | openVolume (fs : Handle) (answer : EfiStatus × Handle)
  | openFile (root : Handle) (path : Text) (mode attributes : UInt64) (answer : EfiStatus × Handle)
  | close (file : Handle) (status : EfiStatus)
  | delete (file : Handle) (status : EfiStatus)
  | read (file : Handle) (destination : Destination) (size : Nat) (answer : ReadAnswer)
  | write (file : Handle) (bytes : List UInt8) (answer : EfiStatus × Nat)
  | setPosition (file : Handle) (position : UInt64) (status : EfiStatus)
  | flush (file : Handle) (status : EfiStatus)
  | outputString (text : Text) (status : EfiStatus)
  | readKeyStroke (answer : EfiStatus × Option CHAR16)
  | allocatePages (pages : Nat) (address : UInt64) (answer : EfiStatus × UInt64)
  | getMemoryMap (size : Nat) (answer : MemoryMapAnswer)
  | exitBootServices (image : Handle) (mapKey : Nat) (status : EfiStatus)
  | enterKernel (address : UInt64) (bootInfo : BootInfo)
  | command (name : Text) (arguments : List Text)
  deriving DecidableEq, Repr

end ExistentOS
