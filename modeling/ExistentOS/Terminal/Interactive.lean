import ExistentOS.Accounts.Operations
import ExistentOS.Terminal.Console
import ExistentOS.Terminal.Parsing

/-!
# Interactive commands

`terminal_run_nano`, `terminal_login` and the dialogue of `passwd`. They read lines
of their own; while a password is typed, the echo is off.
-/

namespace ExistentOS.Terminal

open Programs Terminated Accounts

variable {σ : Type} (fw : Firmware σ)

/-- Print a text of the source with a line end. -/
def say (message : String) : Routine σ Unit := terminalWriteLine fw (constant message)

/-- One round of the loop of `terminal_run_nano`, with the number of lines so far. -/
def nanoRound (fuel : Nat) (lineCount : Nat) : Routine σ (Nat ⊕ Unit) := do
  terminalWrite fw (constant "nano> ")
  let line ← terminalReadLine fw fuel terminalMaxLine
  if line.1 = 0 then return .inl lineCount
  else if (← orOverrun (matchedName line.2 ["exit", "quit"])).isSome then
    say fw "exiting nano"
    return .inr ()
  else if ← orOverrun (terminalMatchCommand line.2 (constant "save")) then
    say fw "saved nano buffer"
    return .inr ()
  else if lineCount ≥ terminalMaxEditorLines then
    say fw "editor buffer full"
    return .inl lineCount
  else
    say fw "line added"
    return .inl (lineCount + 1)

/-- `terminal_run_nano`. The lines are counted and not kept. -/
def terminalRunNano (fuel : Nat) : Routine σ Unit := do
  say fw "nano-like editor entered"
  say fw "type lines, save, or exit"
  iterate .outOfFuel (nanoRound fw fuel) fuel 0

/-- `sizeof(line) / sizeof(line[0])` of the login and password lines, with the terminator. -/
def credentialMax : Nat := 32

/-- Switch `terminal_echo_enabled`. -/
def setEcho (enabled : Bool) : Routine σ Unit := modifyTerminal ({ · with echoEnabled := enabled })

/-- Read a line that is not echoed. Behind it the echo is on, also where it was off before. -/
def readHidden (fuel : Nat) : Routine σ Memory := do
  setEcho false
  let line ← terminalReadLine fw fuel credentialMax
  setEcho true
  return line.2

/-- One round of the loop of `terminal_login`. An empty name starts the next round without a
password. -/
def loginRound (fuel : Nat) (_ : Unit) : Routine σ (Unit ⊕ Bool) := do
  terminalWrite fw (constant "login: ")
  let username ← terminalReadLine fw fuel credentialMax
  if username.1 = 0 then return .inl ()
  else
    terminalWrite fw (constant "password: ")
    let password ← readHidden fw fuel
    if ← accountsLogin username.2 password then return .inr true
    else
      say fw "invalid credentials"
      return .inl ()

/-- `terminal_login`: it only ends with a successful login. There is no way to give up. -/
def terminalLogin (fuel : Nat) : Routine σ Bool := iterate .outOfFuel (loginRound fw fuel) fuel ()

/-- The dialogue of `passwd`, which asks for the new password also where the old one is wrong. -/
def changePassword (fuel : Nat) : Routine σ Unit := do
  terminalWrite fw (constant "current password: ")
  let old ← readHidden fw fuel
  terminalWrite fw (constant "new password: ")
  let new ← readHidden fw fuel
  if ← accountsChangePassword fw old new then say fw "password updated"
  else say fw "password not changed"

end ExistentOS.Terminal
