import ExistentOS.Accounts.Updates

/-!
# The account invariant

What holds of the account storage in every run of logins, updates and reboots
whose store is written only by whole records. The invariant speaks of the table
in memory and, through the store file, of the table that the next initialisation
may bring back; a failed save separates the two without breaking either.
-/

namespace ExistentOS.Accounts

open Programs Terminated Codecs

/-! ## The search loop -/

/-- A search from an index either names an account that the test accepts and
rejects all earlier ones, or rejects all that are left.

Induct over the number of accounts left. -/
theorem searchFrom_exact (storage : AccountStorage) (test : Account → Option Bool)
    (decides : Account → Bool) (left start : Nat) (inside : start + left ≤ fisixMaxUsers)
    (total : ∀ index : Fin fisixMaxUsers, start ≤ index.val → index.val < start + left →
      test (storage.accounts.get index) = some (decides (storage.accounts.get index))) :
    (∃ index : Fin fisixMaxUsers, start ≤ index.val ∧ index.val < start + left ∧
        searchFrom storage test left start = some (some index.val) ∧
        decides (storage.accounts.get index) = true) ∨
      (searchFrom storage test left start = some none ∧
        ∀ index : Fin fisixMaxUsers, start ≤ index.val → index.val < start + left →
          decides (storage.accounts.get index) = false) := by
  induction left generalizing start with
  | zero =>
    refine Or.inr ⟨rfl, ?_⟩
    intro index lower upper
    omega
  | succ left ih =>
    have first : start < fisixMaxUsers := by omega
    have found : storage.accounts[start]? = some storage.accounts[start] :=
      Vector.getElem?_eq_getElem first
    have tested := total ⟨start, first⟩ (Nat.le_refl start) (by simp)
    have unfolded : searchFrom storage test (left + 1) start =
        if decides storage.accounts[start] then some (some start)
        else searchFrom storage test left (start + 1) := by
      rw [get_eq_getElem] at tested
      simp only [searchFrom, found, Option.bind_eq_bind, Option.bind_some, tested]
      rfl
    cases decided : decides storage.accounts[start] with
    | true =>
      refine Or.inl ⟨⟨start, first⟩, Nat.le_refl start, by simp, ?_, decided⟩
      rw [unfolded, decided, if_pos rfl]
    | false =>
      rw [unfolded, decided, if_neg Bool.false_ne_true]
      have further := ih (start + 1) (by omega) (by
        intro index lower upper
        exact total index (by omega) (by omega))
      rcases further with ⟨index, lower, upper, ran, accepted⟩ | ⟨ran, rejected⟩
      · exact Or.inl ⟨index, by omega, by omega, ran, accepted⟩
      · refine Or.inr ⟨ran, ?_⟩
        intro index lower upper
        by_cases here : index.val = start
        · obtain rfl : index = ⟨start, first⟩ := Fin.ext here
          exact decided
        · exact rejected index (by omega) (by omega)

/-- The search over all accounts in use, for a test that is decided on each. -/
theorem search_exact (storage : AccountStorage) (test : Account → Option Bool)
    (decides : Account → Bool) (inside : storage.accountCount ≤ fisixMaxUsers)
    (total : ∀ index : Fin fisixMaxUsers, index.val < storage.accountCount →
      test (storage.accounts.get index) = some (decides (storage.accounts.get index))) :
    (∃ index : Fin fisixMaxUsers, index.val < storage.accountCount ∧
        search storage test = some (some index.val) ∧ decides (storage.accounts.get index) = true) ∨
      (search storage test = some none ∧
        ∀ index : Fin fisixMaxUsers, index.val < storage.accountCount →
          decides (storage.accounts.get index) = false) := by
  have searched := searchFrom_exact storage test decides storage.accountCount 0 (by omega) (by
    intro index _ upper
    exact total index (by omega))
  rcases searched with ⟨index, _, upper, ran, accepted⟩ | ⟨ran, rejected⟩
  · exact Or.inl ⟨index, by omega, ran, accepted⟩
  · exact Or.inr ⟨ran, fun index below => rejected index (Nat.zero_le _) (by omega)⟩

/-! ## The invariant -/

/-- The texts of an account, when both fields are terminated and valid. -/
def WellKept (account : Account) : Prop :=
  ∃ name secret, scan account.name.toList = some name ∧ Valid name ∧
    scan account.password.toList = some secret ∧ Valid secret

/-- The invariant of the account storage. Names are compared as strings, since two fields may
hold the same name and differ behind its terminator. -/
structure Sound (storage : AccountStorage) : Prop where
  positive : 1 ≤ storage.accountCount
  bounded : storage.accountCount ≤ fisixMaxUsers
  current : storage.currentAccount = -1 ∨
    0 ≤ storage.currentAccount ∧ storage.currentAccount < storage.accountCount
  texts : ∀ index : Fin fisixMaxUsers, index.val < storage.accountCount →
    WellKept (storage.accounts.get index)
  distinct : ∀ first second : Fin fisixMaxUsers, first < second →
    second.val < storage.accountCount →
    scan (storage.accounts.get first).name.toList ≠ scan (storage.accounts.get second).name.toList
  administrator : scan storage.accounts[0].name.toList = some adminName
  soleAdmin : ∀ index : Fin fisixMaxUsers, index.val < storage.accountCount →
    ((storage.accounts.get index).admin ≠ 0 ↔ index.val = 0)

/-- Who is logged in does not matter for the table itself. -/
theorem Sound.withCurrent {storage : AccountStorage} (sound : Sound storage) (current : Int)
    (valid : current = -1 ∨ 0 ≤ current ∧ current < storage.accountCount) :
    Sound { storage with currentAccount := current } :=
  ⟨sound.positive, sound.bounded, valid, sound.texts, sound.distinct, sound.administrator,
    sound.soleAdmin⟩

/-- The built-in texts are valid. -/
theorem admin_valid : Valid adminName ∧ Valid adminPassword := by decide

/-- The built-in table is sound, whatever was in the memory before. -/
theorem fallback_sound (storage : AccountStorage) (account : Account)
    (isBuiltIn : IsBuiltIn account) : Sound (fallback storage account) := by
  obtain ⟨name, password, admin⟩ := isBuiltIn
  have first := fallback_first storage account
  have only : ∀ index : Fin fisixMaxUsers, index.val < (fallback storage account).accountCount →
      index.val = 0 ∧ (fallback storage account).accounts.get index = account := by
    intro index below
    obtain rfl : index = ⟨0, by decide⟩ := Fin.ext (Nat.lt_one_iff.mp below)
    exact ⟨rfl, first⟩
  refine ⟨Nat.le_refl 1, (by decide : 1 ≤ fisixMaxUsers), Or.inl rfl, ?_, ?_, ?_, ?_⟩
  · intro index below
    rw [(only index below).2]
    exact ⟨adminName, adminPassword, name, admin_valid.1, password, admin_valid.2⟩
  · intro earlier later before below
    have last := (only later below).1
    omega
  · rw [first]
    exact name
  · intro index below
    rw [(only index below).2, admin]
    exact iff_of_true (by decide) (only index below).1

/-- A comparison with a terminated name is decided on every account of a sound
table. -/
theorem named_decided {storage : AccountStorage} (sound : Sound storage) {name : Memory}
    {wanted : Text} (readable : scan name = some wanted) :
    ∀ index : Fin fisixMaxUsers, index.val < storage.accountCount →
      named name (storage.accounts.get index) =
        some (decide (scan (storage.accounts.get index).name.toList = some wanted)) := by
  intro index below
  obtain ⟨stored, _, readStored, _⟩ := sound.texts index below
  rw [named, equal_exact _ _ _ _ readStored readable, readStored]
  simp

/-- An accepted addition keeps the invariant: the new name differs from all
others because the search found none, and the slot's admin word is cleared. -/
theorem Sound.add {storage updated : AccountStorage} (sound : Sound storage)
    {name password : Memory} (passed : addGuard storage name password = some true)
    (computed : added storage name password = some updated) : Sound updated := by
  obtain ⟨newName, secret, account, _, absent, readName, validName, _, validSecret, room, rfl,
    storedName, storedSecret, plain⟩ := add_effect passed computed
  have searched := search_exact storage (named name)
    (fun account => decide (scan account.name.toList = some newName)) sound.bounded
    (named_decided sound readName)
  have fresh : ∀ index : Fin fisixMaxUsers, index.val < storage.accountCount →
      scan (storage.accounts.get index).name.toList ≠ some newName := by
    rcases searched with ⟨index, _, ran, _⟩ | ⟨_, rejected⟩
    · rw [absent] at ran
      cases ran
    · intro index below
      exact of_decide_eq_false (rejected index below)
  have slot : ∀ index : Fin fisixMaxUsers, index.val < storage.accountCount + 1 →
      index.val < storage.accountCount ∧
        (storage.accounts.set storage.accountCount account).get index =
            storage.accounts.get index ∨
      index.val = storage.accountCount ∧
        (storage.accounts.set storage.accountCount account).get index = account := by
    intro index below
    rw [get_set]
    by_cases last : index.val = storage.accountCount
    · exact Or.inr ⟨last, if_pos last⟩
    · exact Or.inl ⟨by omega, if_neg last⟩
  refine ⟨Nat.succ_le_succ (Nat.zero_le _), room, ?_, ?_, ?_, ?_, ?_⟩
  · rcases sound.current with nobody | ⟨lower, upper⟩
    · exact Or.inl nobody
    · exact Or.inr ⟨lower, by simp; omega⟩
  · intro index below
    rcases slot index below with ⟨old, same⟩ | ⟨_, same⟩
    · rw [same]
      exact sound.texts index old
    · rw [same]
      exact ⟨newName, secret, storedName, validName, storedSecret, validSecret⟩
  · intro first second before below
    obtain ⟨firstOld, firstSame⟩ : first.val < storage.accountCount ∧
        (storage.accounts.set storage.accountCount account).get first =
          storage.accounts.get first := by
      rcases slot first (Nat.lt_trans before below) with old | ⟨last, _⟩
      · exact old
      · have order : first.val < second.val := before
        have bound : second.val < storage.accountCount + 1 := below
        omega
    rw [firstSame]
    rcases slot second below with ⟨old, same⟩ | ⟨_, same⟩
    · rw [same]
      exact sound.distinct first second before old
    · rw [same, storedName]
      exact fresh first firstOld
  · have positive := sound.positive
    rw [Vector.getElem_set_ne _ _ (by omega)]
    exact sound.administrator
  · intro index below
    have positive := sound.positive
    rcases slot index below with ⟨old, same⟩ | ⟨last, same⟩
    · rw [same]
      exact sound.soleAdmin index old
    · rw [same, plain]
      exact iff_of_false (by decide) (by omega)

/-- An accepted password change keeps the invariant. Names and rights are not touched, and the
new password ends in its field. -/
theorem Sound.changePassword {storage updated : AccountStorage} (sound : Sound storage)
    {old new : Memory} (passed : changeGuard storage old new = some true)
    (computed : changed storage new = some updated) : Sound updated := by
  obtain ⟨user, former, secret, field, _, _, _, _, validSecret, rfl, read, _⟩ :=
    changePassword_effect passed computed
  have slot := get_set storage.accounts user user.isLt
    ⟨(storage.accounts.get user).name, field, (storage.accounts.get user).admin⟩
  have kept : ∀ index : Fin fisixMaxUsers,
      ((storage.accounts.set user ⟨(storage.accounts.get user).name, field,
        (storage.accounts.get user).admin⟩).get index).name = (storage.accounts.get index).name ∧
      ((storage.accounts.set user ⟨(storage.accounts.get user).name, field,
        (storage.accounts.get user).admin⟩).get index).admin = (storage.accounts.get index).admin := by
    intro index
    rw [slot]
    by_cases here : index.val = user.val
    · obtain rfl := Fin.ext here
      rw [if_pos rfl]
      exact ⟨rfl, rfl⟩
    · rw [if_neg here]
      exact ⟨rfl, rfl⟩
  refine ⟨sound.positive, sound.bounded, sound.current, ?_, ?_, ?_, ?_⟩
  · intro index below
    obtain ⟨name, stored, readName, validName, readStored, validStored⟩ := sound.texts index below
    rw [slot]
    by_cases here : index.val = user.val
    · obtain rfl := Fin.ext here
      rw [if_pos rfl]
      exact ⟨name, secret, readName, validName, read, validSecret⟩
    · rw [if_neg here]
      exact ⟨name, stored, readName, validName, readStored, validStored⟩
  · intro first second before below
    rw [(kept first).1, (kept second).1]
    exact sound.distinct first second before below
  · have first := (kept ⟨0, by decide⟩).1
    exact (congrArg (fun name => scan name.toList) first).trans sound.administrator
  · intro index below
    rw [(kept index).2]
    exact sound.soleAdmin index below

/-- An accepted update keeps the invariant, whichever of the two it is. -/
theorem Sound.table {storage updated : AccountStorage} (sound : Sound storage) (request : Request)
    (passed : request.guard storage = some true)
    (computed : request.table storage = some updated) : Sound updated := by
  cases request with
  | add name password => exact sound.add passed computed
  | changePassword old new => exact sound.changePassword passed computed

/-! ## The tests on sound tables

On a sound table no test can leave a field, so each is decided by the texts. -/

/-- The credential test of one account comes to an answer, as its strings end. -/
theorem credentials_decided {storage : AccountStorage} (sound : Sound storage)
    {name password : Memory} {user secret : Text} (readName : scan name = some user)
    (readPassword : scan password = some secret) :
    ∀ index : Fin fisixMaxUsers, index.val < storage.accountCount →
      credentialsMatch name password (storage.accounts.get index) =
        some (decide (scan (storage.accounts.get index).name.toList = some user ∧
          scan (storage.accounts.get index).password.toList = some secret)) := by
  intro index below
  obtain ⟨stored, kept, readStored, _, readKept, _⟩ := sound.texts index below
  generalize storage.accounts.get index = account at readStored readKept ⊢
  have names := equal_exact _ _ _ _ readStored readName
  have passwords := equal_exact _ _ _ _ readKept readPassword
  by_cases same : stored = user
  · simp [credentialsMatch, names, passwords, readStored, readKept, same]
  · simp [credentialsMatch, names, readStored, same]

/-- A login finds the account with the given texts, or there is none. -/
theorem login_exact {storage : AccountStorage} (sound : Sound storage)
    {name password : Memory} {user secret : Text} (readName : scan name = some user)
    (readPassword : scan password = some secret) :
    (∃ index : Fin fisixMaxUsers, index.val < storage.accountCount ∧
        search storage (credentialsMatch name password) = some (some index.val) ∧
        scan (storage.accounts.get index).name.toList = some user ∧
        scan (storage.accounts.get index).password.toList = some secret) ∨
      (search storage (credentialsMatch name password) = some none ∧
        ∀ index : Fin fisixMaxUsers, index.val < storage.accountCount →
          ¬ (scan (storage.accounts.get index).name.toList = some user ∧
            scan (storage.accounts.get index).password.toList = some secret)) := by
  have searched := search_exact storage (credentialsMatch name password)
    (fun account => decide (scan account.name.toList = some user ∧
      scan account.password.toList = some secret)) sound.bounded
    (credentials_decided sound readName readPassword)
  rcases searched with ⟨index, below, ran, accepted⟩ | ⟨ran, rejected⟩
  · exact Or.inl ⟨index, below, ran, of_decide_eq_true accepted⟩
  · exact Or.inr ⟨ran, fun index below => of_decide_eq_false (rejected index below)⟩

/-- Only the first account is an administrator, so the test of the rights is one for this
account. -/
theorem isAdmin_exact {storage : AccountStorage} (sound : Sound storage) :
    accountsIsAdmin storage = some (decide (storage.currentAccount = 0)) := by
  rcases sound.current with nobody | ⟨lower, upper⟩
  · simp [accountsIsAdmin, nobody]
  · have bounded := sound.bounded
    have inside : storage.currentAccount.toNat < fisixMaxUsers := by omega
    have found : storage.accounts[storage.currentAccount.toNat]? =
        some storage.accounts[storage.currentAccount.toNat] := Vector.getElem?_eq_getElem inside
    have sole := sound.soleAdmin ⟨storage.currentAccount.toNat, inside⟩ (by simp; omega)
    have first : storage.currentAccount.toNat = 0 ↔ storage.currentAccount = 0 := by omega
    rw [get_eq_getElem, first] at sole
    simp only [accountsIsAdmin, Int.not_lt.mpr lower, if_false, found, Option.bind_eq_bind,
      Option.bind_some, Option.pure_def, Option.some.injEq]
    exact decide_eq_decide.mpr sole

/-- The whole addition test: on a sound table it decides exactly the conditions of the registry. -/
theorem addGuard_exact {storage : AccountStorage} (sound : Sound storage)
    {name password : Memory} {user secret : Text} (readName : scan name = some user)
    (readPassword : scan password = some secret) :
    addGuard storage name password = some (decide (storage.currentAccount = 0 ∧ Valid user ∧
      Valid secret ∧ storage.accountCount ≠ fisixMaxUsers ∧
      ∀ index : Fin fisixMaxUsers, index.val < storage.accountCount →
        scan (storage.accounts.get index).name.toList ≠ some user)) := by
  have searched := search_exact storage (named name)
    (fun account => decide (scan account.name.toList = some user)) sound.bounded
    (named_decided sound readName)
  simp only [addGuard, isAdmin_exact sound, valid_exact name user readName,
    valid_exact password secret readPassword, Option.bind_eq_bind, Option.bind_some,
    Option.pure_def]
  by_cases admin : storage.currentAccount = 0
  · by_cases validName : Valid user
    · by_cases validSecret : Valid secret
      · by_cases full : storage.accountCount = fisixMaxUsers
        · simp [full]
        · rcases searched with ⟨index, below, ran, accepted⟩ | ⟨ran, rejected⟩
          · have taken : ¬ ∀ index : Fin fisixMaxUsers, index.val < storage.accountCount →
                scan (storage.accounts.get index).name.toList ≠ some user :=
              fun free => free index below (of_decide_eq_true accepted)
            simp only [admin, validName, validSecret, full, ran, taken]
            simp
          · have free : ∀ index : Fin fisixMaxUsers, index.val < storage.accountCount →
                scan (storage.accounts.get index).name.toList ≠ some user :=
              fun index below => of_decide_eq_false (rejected index below)
            simp only [admin, validName, validSecret, full, ran]
            simpa [full] using free
      · simp [validSecret]
    · simp [validName]
  · simp [admin]

/-- The whole password test: on a sound table it decides exactly the conditions of the registry. -/
theorem changeGuard_exact {storage : AccountStorage} (sound : Sound storage) {old new : Memory}
    {given secret : Text} (readOld : scan old = some given) (readNew : scan new = some secret) :
    storage.currentAccount = -1 ∧ changeGuard storage old new = some false ∨
      ∃ index : Fin fisixMaxUsers, index.val < storage.accountCount ∧
        storage.currentAccount = index.val ∧ changeGuard storage old new =
          some (decide (scan (storage.accounts.get index).password.toList = some given ∧
            Valid secret)) := by
  rcases sound.current with nobody | ⟨lower, upper⟩
  · exact Or.inl ⟨nobody, by simp [changeGuard, nobody]⟩
  · have bounded := sound.bounded
    have inside : storage.currentAccount.toNat < fisixMaxUsers := by omega
    have below : storage.currentAccount.toNat < storage.accountCount := by omega
    have found : storage.accounts[storage.currentAccount.toNat]? =
        some storage.accounts[storage.currentAccount.toNat] := Vector.getElem?_eq_getElem inside
    obtain ⟨_, kept, _, _, readKept, _⟩ :=
      sound.texts ⟨storage.currentAccount.toNat, inside⟩ below
    have compared := equal_exact _ _ _ _ readKept readOld
    refine Or.inr ⟨⟨storage.currentAccount.toNat, inside⟩, below, by simp [lower], ?_⟩
    rw [get_eq_getElem] at readKept compared
    simp only [changeGuard, Int.not_lt.mpr lower, if_false, found, Option.bind_eq_bind,
      Option.bind_some, compared, get_eq_getElem, readKept, valid_exact new secret readNew]
    by_cases same : kept = given
    · simp [same]
    · simp [same]

/-- An update that passes its test can be carried out. -/
theorem table_exists (request : Request) {storage : AccountStorage} (sound : Sound storage)
    (passed : request.guard storage = some true) :
    ∃ updated, request.table storage = some updated := by
  cases request with
  | add name password =>
    obtain ⟨_, ⟨user, readName, validName⟩, ⟨secret, readPassword, validSecret⟩, free, _⟩ :=
      addGuard_true passed
    have room : storage.accountCount < fisixMaxUsers :=
      Nat.lt_of_le_of_ne sound.bounded free
    obtain ⟨account, ran, _⟩ :=
      added_exact storage name password user secret room readName validName readPassword validSecret
    exact ⟨_, ran⟩
  | changePassword old new =>
    obtain ⟨somebody, account, found, ⟨former, stored, _⟩, secret, readable, validSecret⟩ :=
      changeGuard_true passed
    obtain ⟨inside, rfl⟩ := Vector.getElem?_eq_some_iff.mp found
    have current : storage.currentAccount = storage.currentAccount.toNat := by omega
    obtain ⟨field, ran, _⟩ := changed_exact storage new secret former
      ⟨storage.currentAccount.toNat, inside⟩ current stored readable validSecret
    exact ⟨_, ran⟩

end ExistentOS.Accounts
