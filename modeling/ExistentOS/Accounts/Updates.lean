import ExistentOS.Accounts.StoreFile

/-!
# Updates of the account table

`accounts_add` and `accounts_change_password` have one shape: a test that
touches nothing, an update of the table in memory and a save whose result is
returned. Nothing undoes the update when the save fails, and the save replaces
the stored record in place. Both facts are made exact here, the first for every
firmware, the second for every cut of the write.
-/

namespace ExistentOS.Accounts

open Programs Terminated Codecs

/-- A call of one of the two updating functions. Both test, change the table and save it in this
order, and most of what follows is proved of both at once. -/
inductive Request where
  | add (name password : Memory)
  | changePassword (old new : Memory)
  deriving DecidableEq

namespace Request

/-- The test that precedes the update. An update whose test fails calls no firmware. -/
def guard (storage : AccountStorage) : Request → Option Bool
  | add name password => addGuard storage name password
  | changePassword old new => changeGuard storage old new

/-- The updated table, before anything is stored. -/
def table (storage : AccountStorage) : Request → Option AccountStorage
  | add name password => added storage name password
  | changePassword _ new => changed storage new

variable {σ : Type}

/-- The strings that the request hands over. A test may read beyond one that does not end. -/
def arguments : Request → List Memory
  | add name password => [name, password]
  | changePassword old new => [old, new]

/-- The call itself, with what it returns. -/
def perform (fw : Firmware σ) : Request → Routine σ Bool
  | add name password => accountsAdd fw name password
  | changePassword old new => accountsChangePassword fw old new

/-- A call that passes its test saves the updated table and returns the result
of the save. -/
theorem run_perform (fw : Firmware σ) (request : Request) (machine : Machine σ) :
    (request.perform fw).run machine =
      match request.guard machine.accounts with
      | none => .error (beyond request.arguments)
      | some false => .ok (false, machine)
      | some true =>
        match request.table machine.accounts with
        | none => .error (beyond request.arguments)
        | some storage => (accountsSave fw).run (machine.withAccounts storage) := by
  have entered : (get : Routine σ (Machine σ)).run machine = .ok (machine, machine) := rfl
  cases request with
  | add name password =>
    rw [perform, accountsAdd, run_bind_of_ok entered, guard, table]
    rcases addGuard machine.accounts name password with _ | _ | _
    · rfl
    · rfl
    · rcases added machine.accounts name password with _ | storage
      · rfl
      · rfl
  | changePassword old new =>
    rw [perform, accountsChangePassword, run_bind_of_ok entered, guard, table]
    rcases changeGuard machine.accounts old new with _ | _ | _
    · rfl
    · rfl
    · rcases changed machine.accounts new with _ | storage
      · rfl
      · rfl

/-- Whether the request asks for something else than what is there. A password
may be changed to itself. -/
def Alters : Request → Prop
  | add _ _ => True
  | changePassword old new => scan old ≠ scan new

end Request

/-! ## What the tests establish -/

/-- An early negative return leaves only the positive path. -/
theorem passed_iff (test rest : Option Bool) :
    (do
      if !(← test) then return false
      rest) = some true ↔ test = some true ∧ rest = some true := by
  rcases test with _ | _ | _
  · simp
  · simp
  · simp

/-- A passed addition test: the administrator asks for a name that no comparison
finds, both texts are valid and the table is not full. -/
theorem addGuard_true {storage : AccountStorage} {name password : Memory}
    (passed : addGuard storage name password = some true) :
    accountsIsAdmin storage = some true ∧ (∃ text, scan name = some text ∧ Valid text) ∧
      (∃ text, scan password = some text ∧ Valid text) ∧ storage.accountCount ≠ fisixMaxUsers ∧
      search storage (named name) = some none := by
  rw [addGuard, passed_iff, passed_iff, passed_iff] at passed
  obtain ⟨admin, validName, validPassword, rest⟩ := passed
  split at rest
  · cases rest
  · rename_i free
    obtain ⟨found, searched, nothing⟩ := Option.bind_eq_some_iff.mp rest
    have absent : found = none := by simpa using nothing
    exact ⟨admin, valid_true name validName, valid_true password validPassword, free,
      absent ▸ searched⟩

/-- A passed password test: somebody is logged in, gave the current password and
asks for a valid one. -/
theorem changeGuard_true {storage : AccountStorage} {old new : Memory}
    (passed : changeGuard storage old new = some true) :
    0 ≤ storage.currentAccount ∧ ∃ account,
      storage.accounts[storage.currentAccount.toNat]? = some account ∧
      (∃ text, scan account.password.toList = some text ∧ scan old = some text) ∧
      ∃ text, scan new = some text ∧ Valid text := by
  rw [changeGuard] at passed
  split at passed
  · cases passed
  · rename_i somebody
    obtain ⟨account, found, passed⟩ := Option.bind_eq_some_iff.mp passed
    obtain ⟨same, compared, passed⟩ := Option.bind_eq_some_iff.mp passed
    cases same with
    | false => cases passed
    | true =>
      exact ⟨Int.not_lt.mp somebody, account, found, equal_true _ _ compared,
        valid_true new passed⟩

/-! ## What the updates store -/

/-- A new account fills the first free slot. -/
theorem added_exact (storage : AccountStorage) (name password : Memory) (newName secret : Text)
    (room : storage.accountCount < fisixMaxUsers) (readName : scan name = some newName)
    (validName : Valid newName) (readPassword : scan password = some secret)
    (validPassword : Valid secret) :
    ∃ account, added storage name password = some
        ⟨storage.accounts.set storage.accountCount account, storage.accountCount + 1,
          storage.currentAccount⟩ ∧
      scan account.name.toList = some newName ∧ scan account.password.toList = some secret ∧
      account.admin = 0 := by
  obtain ⟨_, _, shortName⟩ := validName
  obtain ⟨_, _, shortPassword⟩ := validPassword
  obtain ⟨nameField, copiedName, storedName⟩ :=
    copy_valid storage.accounts[storage.accountCount].name name newName readName shortName
  obtain ⟨passwordField, copiedPassword, storedPassword⟩ :=
    copy_valid storage.accounts[storage.accountCount].password password secret readPassword
      shortPassword
  refine ⟨⟨nameField, passwordField, 0⟩, ?_, storedName, storedPassword, rfl⟩
  simp [added, withAccount, room, fill, copiedName, copiedPassword]

/-- A new password replaces the one of the current account, and changes nothing
at all if it is the same. -/
theorem changed_exact (storage : AccountStorage) (new : Memory) (secret former : Text)
    (index : Fin fisixMaxUsers) (current : storage.currentAccount = index.val)
    (stored : scan (storage.accounts.get index).password.toList = some former)
    (readable : scan new = some secret) (validSecret : Valid secret) :
    ∃ field, changed storage new = some
        ⟨storage.accounts.set index
            ⟨(storage.accounts.get index).name, field, (storage.accounts.get index).admin⟩
            index.isLt,
          storage.accountCount, storage.currentAccount⟩ ∧
      scan field.toList = some secret ∧
      (field = (storage.accounts.get index).password ↔ former = secret) := by
  obtain ⟨_, _, short⟩ := validSecret
  obtain ⟨field, copied, read⟩ :=
    copy_valid (storage.accounts.get index).password new secret readable short
  refine ⟨field, ?_, read, ?_⟩
  · have slot : storage.currentAccount.toNat = index.val := by omega
    have inside := index.isLt
    simp only [changed, slot, withAccount, inside, dite_true, repassword]
    rw [← get_eq_getElem, copied]
    rfl
  · constructor
    · rintro rfl
      exact Option.some.inj (stored.symm.trans read)
    · rintro rfl
      exact Option.some.inj (copied.symm.trans (copy_same _ new former stored readable))

/-- Everything an accepted addition does to the table, and what its test has made sure of. -/
theorem add_effect {storage updated : AccountStorage} {name password : Memory}
    (passed : addGuard storage name password = some true)
    (computed : added storage name password = some updated) :
    ∃ newName secret account, accountsIsAdmin storage = some true ∧
      search storage (named name) = some none ∧
      scan name = some newName ∧ Valid newName ∧ scan password = some secret ∧ Valid secret ∧
      ∃ room : storage.accountCount < fisixMaxUsers,
        updated = ⟨storage.accounts.set storage.accountCount account, storage.accountCount + 1,
          storage.currentAccount⟩ ∧
        scan account.name.toList = some newName ∧ scan account.password.toList = some secret ∧
        account.admin = 0 := by
  obtain ⟨admin, ⟨newName, readName, validName⟩, ⟨secret, readPassword, validPassword⟩, _, absent⟩ :=
    addGuard_true passed
  have room : storage.accountCount < fisixMaxUsers := by
    by_contra full
    simp [added, withAccount, full] at computed
  obtain ⟨account, ran, storedName, storedPassword, plain⟩ :=
    added_exact storage name password newName secret room readName validName readPassword
      validPassword
  exact ⟨newName, secret, account, admin, absent, readName, validName, readPassword,
    validPassword, room, Option.some.inj (computed.symm.trans ran), storedName, storedPassword,
    plain⟩

/-- Everything an accepted password change does to the table, and what its test has made sure of. -/
theorem changePassword_effect {storage updated : AccountStorage} {old new : Memory}
    (passed : changeGuard storage old new = some true)
    (computed : changed storage new = some updated) :
    ∃ (index : Fin fisixMaxUsers) (former secret : Text) (field : Vector CHAR16 (accountTextMax + 1)),
      storage.currentAccount = index.val ∧
      scan (storage.accounts.get index).password.toList = some former ∧ scan old = some former ∧
      scan new = some secret ∧ Valid secret ∧
      updated = ⟨storage.accounts.set index
          ⟨(storage.accounts.get index).name, field, (storage.accounts.get index).admin⟩
          index.isLt,
        storage.accountCount, storage.currentAccount⟩ ∧
      scan field.toList = some secret ∧
      (field = (storage.accounts.get index).password ↔ former = secret) := by
  obtain ⟨somebody, account, found, ⟨former, stored, given⟩, secret, readable, validSecret⟩ :=
    changeGuard_true passed
  obtain ⟨inside, rfl⟩ := Vector.getElem?_eq_some_iff.mp found
  have current : storage.currentAccount = storage.currentAccount.toNat := by omega
  obtain ⟨field, ran, read, unchanged⟩ := changed_exact storage new secret former
    ⟨storage.currentAccount.toNat, inside⟩ current stored readable validSecret
  exact ⟨⟨storage.currentAccount.toNat, inside⟩, former, secret, field, current, stored, given,
    readable, validSecret, Option.some.inj (computed.symm.trans ran), read, unchanged⟩

/-- An update leaves the table alone only if it sets the password that is already
there. -/
theorem Request.table_same_iff (request : Request) {storage updated : AccountStorage}
    (passed : request.guard storage = some true) (computed : request.table storage = some updated) :
    updated = storage ↔ ¬ request.Alters := by
  cases request with
  | add name password =>
    obtain ⟨_, _, _, _, _, _, _, _, _, _, rfl, _⟩ := add_effect passed computed
    refine iff_of_false (fun same => ?_) (fun altered => altered trivial)
    have count := congrArg AccountStorage.accountCount same
    exact absurd count (Nat.succ_ne_self _)
  | changePassword old new =>
    obtain ⟨index, former, secret, field, _, _, given, readable, _, rfl, _, unchanged⟩ :=
      changePassword_effect passed computed
    rw [Request.Alters, given, readable, not_ne_iff, Option.some.injEq, ← unchanged]
    constructor
    · intro same
      have slot := congrArg (fun table => (table.accounts.get index).password) same
      simpa [get_set] using slot
    · rintro rfl
      have kept : storage.accounts.set index (storage.accounts.get index) index.isLt =
          storage.accounts := Vector.set_getElem_self index.isLt
      exact congrArg (AccountStorage.mk · storage.accountCount storage.currentAccount) kept

/-- An update keeps the count in range, which the test has made sure of. -/
theorem Request.table_range (request : Request) {storage updated : AccountStorage}
    (passed : request.guard storage = some true) (computed : request.table storage = some updated)
    (range : 1 ≤ storage.accountCount ∧ storage.accountCount ≤ fisixMaxUsers) :
    1 ≤ updated.accountCount ∧ updated.accountCount ≤ fisixMaxUsers := by
  cases request with
  | add name password =>
    obtain ⟨_, _, _, _, _, _, _, _, _, room, rfl, _⟩ := add_effect passed computed
    exact ⟨Nat.succ_le_succ (Nat.zero_le _), room⟩
  | changePassword old new =>
    obtain ⟨_, _, _, _, _, _, _, _, _, rfl, _⟩ := changePassword_effect passed computed
    exact range

/-- Changing an account of the table changes nothing about who is logged in. -/
theorem withAccount_current {storage updated : AccountStorage} {index : Nat}
    {change : Account → Option Account} (ran : withAccount storage index change = some updated) :
    updated.currentAccount = storage.currentAccount := by
  unfold withAccount at ran
  split at ran
  · obtain ⟨account, _, rfl⟩ := Option.map_eq_some_iff.mp ran
    rfl
  · cases ran

/-- An update changes nothing about who is logged in. -/
theorem Request.table_current (request : Request) {storage updated : AccountStorage}
    (computed : request.table storage = some updated) :
    updated.currentAccount = storage.currentAccount := by
  cases request with
  | add name password =>
    obtain ⟨filled, ran, stored⟩ := Option.bind_eq_some_iff.mp computed
    have same : filled.currentAccount = storage.currentAccount := withAccount_current ran
    rw [← Option.some.inj stored]
    exact same
  | changePassword old new => exact withAccount_current computed

/-! ## Failing saves -/

section Failures

variable {σ : Type}

/-- The outcome of a save as far as it depends on the answers of the firmware: a
complete write, a failure, or the use of a null root. -/
def storeOutcome (fw : Firmware σ) (available : Bool) (data : List UInt8) (state : σ) :
    Option Bool :=
  match openAnswer fw storeName saveMode 0 available state with
  | none => none
  | some (none, _) => some false
  | some (some file, state) =>
    let positioned := fw.setPosition file 0 state
    if efiError positioned.1 then some false
    else
      let written := fw.write file data positioned.2
      some (!efiError written.1.1 && written.1.2 = storeWidth)

/-- A flush changes only the firmware. -/
theorem wp_flush (fw : Firmware σ) (file : Handle) {Q : Unit → Machine σ → Prop} {E : Stop → Prop}
    {machine : Machine σ} (next : ∀ after, OnlyFirmware machine after → Q () after) :
    wp (flushFile fw file) Q E machine := by
  simp only [flushFile, wp_ite, wp_bind, wp_pure, wp_call]
  constructor
  · intro _
    exact next _ (called_onlyFirmware machine _ _)
  · intro _
    exact next machine (Std.Refl.refl machine)

/-- A save touches nothing but the firmware and returns what its answers decide. -/
theorem accountsSave_outcome (fw : Firmware σ) (machine : Machine σ) :
    wp (accountsSave fw)
      (fun result after => OnlyFirmware machine after ∧
        storeOutcome fw machine.canLocate (store.encode (record machine.accounts))
          machine.firmware = some result)
      (fun _ => storeOutcome fw machine.canLocate (store.encode (record machine.accounts))
        machine.firmware = none) machine := by
  have step : ∀ (before : Machine σ) (firmware : σ) (event : Event), OnlyFirmware machine before →
      OnlyFirmware machine (before.called firmware event) :=
    fun before firmware event frame => frame.then (called_onlyFirmware before firmware event)
  rw [accountsSave, wp_bind, accountsOpen]
  apply wp_openAnswer fw storePath storeName saveMode 0 scan_storePath
  · intro file opened frame answer
    cases file with
    | none => exact ⟨frame, by simp [storeOutcome, answer]⟩
    | some file =>
      simp only [storeOutcome, answer, wp_bind, wp_get, setPosition, wp_call]
      rw [wp_ite]
      refine ⟨fun failed => ⟨step _ _ _ (step _ _ _ frame), by simp [failed]⟩, fun worked => ?_⟩
      rw [wp_bind, writeFile, wp_call, called_firmware, wp_ite, frame.accounts, if_neg worked]
      refine ⟨fun failed => ?_, fun stored => ?_⟩
      · have bad : (!efiError (fw.write file (store.encode (record machine.accounts))
            (fw.setPosition file 0 opened.firmware).2).1.1 && decide ((fw.write file (store.encode
              (record machine.accounts)) (fw.setPosition file 0 opened.firmware).2).1.2 =
                storeWidth)) = false := by
          rcases failed with error | short
          · simp [error]
          · simp [short]
        exact ⟨step _ _ _ (step _ _ _ (step _ _ _ frame)), congrArg some bad⟩
      · rw [wp_bind]
        apply wp_flush
        intro flushed frame₂
        refine ⟨step _ _ _ ((step _ _ _ (step _ _ _ frame)).then frame₂), ?_⟩
        simpa using stored
  · intro crash
    simp [storeOutcome, crash]

/-- A save that fails by the answers of the firmware returns zero and keeps the
updated table. -/
theorem failing_save (fw : Firmware σ) (machine : Machine σ)
    (failing : storeOutcome fw machine.canLocate (store.encode (record machine.accounts))
      machine.firmware = some false) :
    ∃ after, (accountsSave fw).run machine = .ok (false, after) ∧
      after.accounts = machine.accounts := by
  have outcome := (wp_iff _ _ _ _).mp (accountsSave_outcome fw machine)
  cases ran : (accountsSave fw).run machine with
  | error reason =>
    have crash := outcome.2 reason ran
    rw [failing] at crash
    cases crash
  | ok pair =>
    obtain ⟨result, after⟩ := pair
    obtain ⟨frame, decided⟩ := outcome.1 result after ran
    rw [failing, Option.some.injEq] at decided
    subst decided
    exact ⟨after, rfl, frame.accounts⟩

/-- A failing update leaves the accounts as they were, for every answer of the firmware, exactly
if its test fails, or it sets the password that is already there, or the firmware does not let
the save fail. The code changes the table before it saves it, and does not take the change back. -/
theorem update_atomic_iff (fw : Firmware σ) (request : Request) (machine : Machine σ) :
    (∀ after, (request.perform fw).run machine = .ok (false, after) →
        after.accounts = machine.accounts) ↔
      (request.guard machine.accounts = some true → request.Alters →
        ∀ updated, request.table machine.accounts = some updated →
          storeOutcome fw machine.canLocate (store.encode (record updated)) machine.firmware ≠
            some false) := by
  rw [request.run_perform]
  rcases passed : request.guard machine.accounts with _ | _ | _
  · simp
  · simp
  rcases computed : request.table machine.accounts with _ | updated
  · simp
  have same := request.table_same_iff passed computed
  simp only [true_implies, Option.some.injEq, forall_eq']
  constructor
  · intro atomic altered failing
    obtain ⟨after, ran, kept⟩ := failing_save fw (machine.withAccounts updated) failing
    have unchanged : updated = machine.accounts := kept.symm.trans (atomic after ran)
    exact same.mp unchanged altered
  · intro condition after ran
    obtain ⟨frame, decided⟩ := wp_returns (accountsSave_outcome fw (machine.withAccounts updated)) ran
    have kept : after.accounts = updated := frame.accounts
    have spared : ¬ request.Alters := fun altered => condition altered decided
    rw [kept]
    exact same.mpr spared

/-- The built-in table with the administrator logged in. -/
def adminTable : AccountStorage :=
  { (builtIn initialAccounts).getD initialAccounts with currentAccount := 0 }

/-- The same table with the password "secret". -/
def secretTable : AccountStorage := (changed adminTable (constant "secret")).getD adminTable

/-- A write of the store that moves nothing and says so. -/
def deadWrite : List Fault := List.replicate 5 Fault.absent ++ [⟨efiDeviceError, none, some 0⟩]

/-- A password change whose write fails returns zero, yet the new password is in
force and the old one is not. -/
theorem changePassword_kept :
    ∃ after, (accountsChangePassword (Volume.firmware id Volume.quiet) (constant "fisix")
        (constant "secret")).run ((Volume.started (fun _ => none) deadWrite).withAccounts adminTable) =
          .ok (false, after) ∧
      after.accounts ≠ adminTable ∧
      search after.accounts (credentialsMatch (constant "admin") (constant "secret")) = some (some 0) ∧
      search after.accounts (credentialsMatch (constant "admin") (constant "fisix")) = some none := by
  let session := (Volume.started (fun _ => none) deadWrite).withAccounts adminTable
  let request := Request.changePassword (constant "fisix") (constant "secret")
  have passed : request.guard adminTable = some true := by decide
  have computed : request.table adminTable = some secretTable := by decide
  have failing : storeOutcome (Volume.firmware id Volume.quiet) session.canLocate
      (store.encode (record secretTable)) session.firmware = some false := by decide
  obtain ⟨after, saved, kept⟩ := failing_save (Volume.firmware id Volume.quiet)
    (session.withAccounts secretTable) failing
  refine ⟨after, ?_, ?_⟩
  · have ran := request.run_perform (Volume.firmware id Volume.quiet) session
    rw [withAccounts_accounts, passed, computed] at ran
    exact ran.trans saved
  · rw [kept, withAccounts_accounts]
    decide

end Failures

end ExistentOS.Accounts
