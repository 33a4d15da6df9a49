import ExistentOS.Accounts.Fields
import ExistentOS.Accounts.Store
import ExistentOS.Files

/-!
# The accounts module

The functions of `accounts.c` in the order of the source. The tests that touch
no firmware are functions of the account storage; they have no result when a
string comparison would leave its field or an index its table.
-/

namespace ExistentOS.Accounts

open Programs

variable {σ : Type}

/-- The path of the account store. It is an ordinary file in the root directory. -/
def storePath : Memory := constant "\\fisix_users.db"

/-- `accounts_open`. The root is closed as soon as `Open` has answered, and a success with a null
file counts as a failure. -/
def accountsOpen (fw : Firmware σ) (mode : UInt64) : Routine σ (Option Handle) :=
  openOnVolume fw storePath mode 0

/-- `accounts_save`. A write that is short is a failure too, but what it has stored stays in the
file. -/
def accountsSave (fw : Firmware σ) : Routine σ Bool := do
  match ← accountsOpen fw (efiFileModeRead ||| efiFileModeWrite ||| efiFileModeCreate) with
  | none => return false
  | some file =>
    let machine ← get
    let positioned ← setPosition fw file 0
    if efiError positioned then
      let _ ← closeFile fw file
      return false
    let written ← writeFile fw file (store.encode (record machine.accounts))
    if efiError written.1 ∨ written.2 ≠ storeWidth then
      let _ ← closeFile fw file
      return false
    flushFile fw file
    let _ ← closeFile fw file
    return true

/-- The record that a successful full-length `Read` delivered, if its header is
admissible. Fewer bytes than reported would leave parts of the local record
unwritten. -/
def delivered (answer : ReadAnswer) : Option (Option AccountStore) :=
  if efiError answer.status ∨ answer.size ≠ storeWidth then some none
  else if answer.bytes.length = storeWidth then
    let found := store.decode answer.bytes
    if Admissible found then some (some found) else some none
  else none

/-- `accounts_load`. A record with a wrong size, magic or count is ignored, and the table stays
what it was before. -/
def accountsLoad (fw : Firmware σ) : Routine σ Unit := do
  match ← accountsOpen fw efiFileModeRead with
  | none => return ()
  | some file =>
    let answer ← readFile fw file storeWidth
    match ← orStop .unset (delivered answer) with
    | some found => modifyAccounts (adopted · found)
    | none => pure ()
    let _ ← closeFile fw file
    return ()

/-- Change one account of the table. There is no account at an index beyond the table, and then
nothing is changed. -/
def withAccount (storage : AccountStorage) (index : Nat) (change : Account → Option Account) :
    Option AccountStorage :=
  if inside : index < fisixMaxUsers then
    (change storage.accounts[index]).map fun account =>
      { storage with accounts := storage.accounts.set index account }
  else none

/-- Set name, password and admin flag of an account by bounded copies. -/
def fill (name password : Memory) (admin : Int32) (account : Account) : Option Account := do
  let name ← copy account.name name
  let password ← copy account.password password
  return ⟨name, password, admin⟩

/-- Set the password of an account by a bounded copy. -/
def repassword (password : Memory) (account : Account) : Option Account := do
  let password ← copy account.password password
  return { account with password := password }

/-- The built-in table of `accounts_init`, before the store is loaded. The other entries keep
what they had. -/
def builtIn (storage : AccountStorage) : Option AccountStorage :=
  withAccount { storage with accountCount := 1, currentAccount := -1 } 0
    (fill (constant "admin") (constant "fisix") 1)

/-- `accounts_init`. The built-in administrator is set up first, so that it is there when the
store is missing or rejected. -/
def accountsInit (fw : Firmware σ) : Routine σ Unit := do
  let machine ← get
  let fresh ← orFault (builtIn machine.accounts)
  modifyAccounts fun _ => fresh
  accountsLoad fw

/-- The first of the next `count` accounts, from an index on, that a test
accepts. -/
def searchFrom (storage : AccountStorage) (test : Account → Option Bool) :
    Nat → Nat → Option (Option Nat)
  | 0, _ => some none
  | count + 1, index => do
    let account ← storage.accounts[index]?
    if ← test account then return some index
    searchFrom storage test count (index + 1)

/-- The loop over all accounts in use. It hands back the first index that passes the test. -/
def search (storage : AccountStorage) (test : Account → Option Bool) : Option (Option Nat) :=
  searchFrom storage test storage.accountCount 0

/-- The test of `accounts_login`: name and password are those of the account. -/
def credentialsMatch (name password : Memory) (account : Account) : Option Bool := do
  if ← equal account.name.toList name then equal account.password.toList password
  else return false

/-- The duplicate test of `accounts_add`: the name is that of the account. -/
def named (name : Memory) (account : Account) : Option Bool := equal account.name.toList name

/-- What a string loop leaves if it finds no end: an argument that was never written or that is not
terminated, or else a field of the table. -/
def beyond (arguments : List Memory) : Stop :=
  if [] ∈ arguments then .unset
  else if ∀ argument ∈ arguments, (0 : CHAR16) ∈ argument then .fault
  else .overrun

/-- `accounts_login`. Whoever was logged in before stays so where the credentials match no
account. -/
def accountsLogin (name password : Memory) : Routine σ Bool := do
  let machine ← get
  match ← orStop (beyond [name, password])
      (search machine.accounts (credentialsMatch name password)) with
  | some index =>
    modifyAccounts ({ · with currentAccount := index })
    return true
  | none => return false

/-- The three outcomes of a login: an account is found, none is, or a string without an end is
compared. -/
theorem run_accountsLogin (name password : Memory) (machine : Machine σ) :
    (accountsLogin name password).run machine =
      match search machine.accounts (credentialsMatch name password) with
      | none => .error (beyond [name, password])
      | some none => .ok (false, machine)
      | some (some index) =>
        .ok (true, machine.withAccounts { machine.accounts with currentAccount := index }) := by
  have entered : (get : Routine σ (Machine σ)).run machine = .ok (machine, machine) := rfl
  rw [accountsLogin, run_bind_of_ok entered]
  rcases search machine.accounts (credentialsMatch name password) with _ | _ | index
  · rfl
  · rfl
  · rfl

/-- `accounts_is_admin`. Nobody is no administrator. -/
def accountsIsAdmin (storage : AccountStorage) : Option Bool :=
  if storage.currentAccount < 0 then some false
  else do
    let account ← storage.accounts[storage.currentAccount.toNat]?
    return account.admin ≠ 0

/-- The conditions under which `accounts_add` goes on to change the table. They are tested in the
order of the source. -/
def addGuard (storage : AccountStorage) (name password : Memory) : Option Bool := do
  if !(← accountsIsAdmin storage) then return false
  if !(← valid name) then return false
  if !(← valid password) then return false
  if storage.accountCount = fisixMaxUsers then return false
  return (← search storage (named name)).isNone

/-- The table with one more account, which is no administrator. -/
def added (storage : AccountStorage) (name password : Memory) : Option AccountStorage := do
  let filled ← withAccount storage storage.accountCount (fill name password 0)
  return { filled with accountCount := storage.accountCount + 1 }

/-- `accounts_add`. The account is in the table before the save, and stays there when the save
fails. -/
def accountsAdd (fw : Firmware σ) (name password : Memory) : Routine σ Bool := do
  let machine ← get
  if ← orStop (beyond [name, password]) (addGuard machine.accounts name password) then
    let changed ← orStop (beyond [name, password]) (added machine.accounts name password)
    modifyAccounts fun _ => changed
    accountsSave fw
  else return false

/-- `accounts_add` reads the name up to its terminator only. -/
theorem accountsAdd_readsName (fw : Firmware σ) (password : Memory) :
    Terminated.ReadsString fun name => accountsAdd fw name password := by
  intro text rest free
  have sameNamed : named (text ++ 0 :: rest) = named (text ++ [0]) :=
    funext fun account => equal_reads account.name.toList text rest free
  have sameFill : fill (text ++ 0 :: rest) password 0 = fill (text ++ [0]) password 0 := by
    funext account
    rw [fill, fill, copy_reads account.name text rest free]
  have sameBeyond : beyond [text ++ 0 :: rest, password] = beyond [text ++ [0], password] := by
    simp [beyond]
  simp only [accountsAdd, addGuard, added, sameNamed, sameFill, sameBeyond,
    valid_reads text rest free]

/-- `accounts_add` reads the password up to its terminator only. -/
theorem accountsAdd_readsPassword (fw : Firmware σ) (name : Memory) :
    Terminated.ReadsString fun password => accountsAdd fw name password := by
  intro text rest free
  have sameFill : fill name (text ++ 0 :: rest) 0 = fill name (text ++ [0]) 0 := by
    funext account
    rw [fill, fill, copy_reads account.password text rest free]
  have sameBeyond : beyond [name, text ++ 0 :: rest] = beyond [name, text ++ [0]] := by
    simp [beyond]
  simp only [accountsAdd, addGuard, added, sameFill, sameBeyond, valid_reads text rest free]

/-- The conditions under which `accounts_change_password` changes the table: somebody is logged
in, knows the old password and gives a valid new one. -/
def changeGuard (storage : AccountStorage) (old new : Memory) : Option Bool :=
  if storage.currentAccount < 0 then some false
  else do
    let account ← storage.accounts[storage.currentAccount.toNat]?
    if ← equal account.password.toList old then valid new else return false

/-- The table with a new password for the current account. -/
def changed (storage : AccountStorage) (new : Memory) : Option AccountStorage :=
  withAccount storage storage.currentAccount.toNat (repassword new)

/-- `accounts_change_password`. The password is in the table before the save, and stays there
when the save fails. -/
def accountsChangePassword (fw : Firmware σ) (old new : Memory) : Routine σ Bool := do
  let machine ← get
  if ← orStop (beyond [old, new]) (changeGuard machine.accounts old new) then
    let updated ← orStop (beyond [old, new]) (changed machine.accounts new)
    modifyAccounts fun _ => updated
    accountsSave fw
  else return false

/-- `accounts_current_user`, which is the text `nobody` while nobody is logged in. -/
def accountsCurrentUser (storage : AccountStorage) : Option Memory :=
  if storage.currentAccount < 0 then some (constant "nobody")
  else (storage.accounts[storage.currentAccount.toNat]?).map (·.name.toList)

/-- `accounts_count`, the number of accounts in use. -/
def accountsCount (storage : AccountStorage) : Nat := storage.accountCount

/-- `accounts_user_at`, for an index below the count. -/
def accountsUserAt (storage : AccountStorage) (index : Nat) : Option Memory :=
  if index < storage.accountCount then (storage.accounts[index]?).map (·.name.toList) else none

end ExistentOS.Accounts
