import ExistentOS.Efi
import ExistentOS.Library.Terminated

/-!
# Static storage

The static variables of `accounts.c`, `eosfs.c` and `efi_main.c`, as far as the
modelled functions read them. Arrays keep their declared sizes; a 32-slot text
field is a vector, so that nothing can be stored beyond it.
-/

namespace ExistentOS

/-- `ACCOUNT_TEXT_MAX`, the longest name or password without its terminator. -/
def accountTextMax : Nat := 31

/-- `FISIX_MAX_USERS`. -/
def fisixMaxUsers : Nat := 8

/-- `account_t`. Both strings are fields of 32 units, and the rights are a number that is tested
for zero. -/
structure Account where
  name : Vector CHAR16 (accountTextMax + 1)
  password : Vector CHAR16 (accountTextMax + 1)
  admin : Int32
  deriving DecidableEq

/-- The static variables of `accounts.c`. The current account is `-1` while
nobody is logged in. -/
structure AccountStorage where
  accounts : Vector Account fisixMaxUsers
  accountCount : Nat
  currentAccount : Int
  deriving DecidableEq

/-- `EOSFS_MAX_ENTRIES`. -/
def eosfsMaxEntries : Nat := 32

/-- The longest name of an entry without its terminator. The field has one more slot. -/
def eosfsNameMax : Nat := 15

/-- `eosfs_entry_type_t`. A listing prints `<dir>` for the one and `<file>` for the other. -/
inductive EosfsEntryType where
  | dir
  | file
  deriving DecidableEq, Repr

/-- `eosfs_entry_t`, a name in a field of 16 units and its type. -/
structure EosfsEntry where
  name : Vector CHAR16 (eosfsNameMax + 1)
  type : EosfsEntryType
  deriving DecidableEq

/-- The entry table of `eosfs.c`. Only the entries that are counted are listed. -/
structure EosfsStorage where
  entries : Vector EosfsEntry eosfsMaxEntries
  entryCount : Nat
  deriving DecidableEq

/-- `TERMINAL_MAX_ARGS`. -/
def terminalMaxArgs : Nat := 8

/-- `TERMINAL_MAX_LINE`, with the terminator. -/
def terminalMaxLine : Nat := 128

/-- `TERMINAL_MAX_EDITOR_LINES`. -/
def terminalMaxEditorLines : Nat := 8

/-- `TerminalMode`. The prompt names it, and setting it switches the echo on. -/
inductive TerminalMode where
  | batch
  | bash
  deriving DecidableEq, Repr

/-- The static variables of `efi_main.c`. The last one is the line buffer inside
`terminal_parse_command`, into which every `argv` array points. -/
structure TerminalStorage where
  mode : TerminalMode
  echoEnabled : Bool
  currentDrive : CHAR16
  currentPath : Vector CHAR16 128
  line : Vector CHAR16 128
  deriving DecidableEq

/-! ## Slots of a table -/

section Slots

variable {α : Type} {slots : Nat}

/-- A slot is the entry at its number. -/
theorem get_eq_getElem (table : Vector α slots) (index : Fin slots) :
    table.get index = table[index.val] := rfl

/-- The slots of a table given by a function. -/
theorem get_ofFn (entry : Fin slots → α) (index : Fin slots) :
    (Vector.ofFn entry).get index = entry index := by
  rw [get_eq_getElem, Vector.getElem_ofFn]

/-- Storing one entry shows at its slot only. -/
theorem get_set (table : Vector α slots) (place : Nat) (inside : place < slots) (entry : α)
    (index : Fin slots) :
    (table.set place entry inside).get index =
      if index.val = place then entry else table.get index := by
  rw [get_eq_getElem, Vector.getElem_set, get_eq_getElem]
  by_cases here : index.val = place
  · rw [if_pos here.symm, if_pos here]
  · rw [if_neg (Ne.symm here), if_neg here]

end Slots

/-! ## Initial contents -/

/-- A field of zeros: static storage before the program writes it. -/
def blankField (slots : Nat) : Vector CHAR16 slots := Vector.replicate slots 0

/-- An account of zeros, as static storage starts. -/
def blankAccount : Account := ⟨blankField _, blankField _, 0⟩

/-- The account storage before `accounts_init`. Nobody is logged in. -/
def initialAccounts : AccountStorage := ⟨Vector.replicate _ blankAccount, 0, -1⟩

/-- An entry of zeros. Its type is that of a directory, which is the first of the enumeration. -/
def blankEntry : EosfsEntry := ⟨blankField _, .dir⟩

/-- The entry table before `eosfs_init`. -/
def initialEosfs : EosfsStorage := ⟨Vector.replicate _ blankEntry, 0⟩

/-- The path of a drive at the start of a buffer: the letter, a colon, a slash and the
terminator. -/
def drivePath (drive : CHAR16) (buffer : Vector CHAR16 128) : Vector CHAR16 128 :=
  (((buffer.set 0 drive).set 1 0x3A).set 2 0x2F).set 3 0

/-- The path of the default drive. -/
def initialPath : Vector CHAR16 128 := drivePath 0x42 (blankField 128)

/-- The variables of the terminal as the source initialises them. -/
def initialTerminal : TerminalStorage :=
  ⟨.batch, true, 0x42, initialPath, blankField 128⟩

end ExistentOS
