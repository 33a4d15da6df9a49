import ExistentOS.Accounts.Sessions
import ExistentOS.Library.Credentials

/-!
# The accounts module as a credential registry

On a working volume, sessions of the accounts module answer exactly as the
abstract registry does: its users are the names in the table, its secrets their
passwords, its administrator the built-in name and its capacity the size of the
table. Reboots log out and change nothing else, because the store always holds
the table in memory or, before the first update, does not exist.
-/

namespace ExistentOS.Accounts

open Programs Terminated Codecs Credentials

/-! ## The abstract session -/

/-- The registry after the first initialisation: only the administrator. -/
def initialRegistry : Registry Text Text := initial adminName adminPassword

/-- The answer of the registry to a step. These are the rules by themselves, without table, store
or firmware. -/
def respond : Action → Registry Text Text → Bool × Registry Text Text
  | .login name password, registry => registry.login name.text password.text
  | .add name password, registry =>
    registry.add adminName fisixMaxUsers Valid Valid name.text password.text
  | .changePassword old new, registry => registry.changeSecret Valid old.text new.text
  | .reboot _, registry => (true, registry.logout)

/-! ## Representation -/

/-- A sound table stands for a registry. The accounts that are counted are its users, and the
current account names the user who is logged in. -/
structure Represents (storage : AccountStorage) (registry : Registry Text Text) : Prop where
  sound : Sound storage
  size : registry.users.card = storage.accountCount
  secrets : ∀ name secret, registry.secret name = some secret ↔
    ∃ index : Fin fisixMaxUsers, index.val < storage.accountCount ∧
      scan (storage.accounts.get index).name.toList = some name ∧
      scan (storage.accounts.get index).password.toList = some secret
  nobody : storage.currentAccount = -1 → registry.current = none
  somebody : ∀ index : Fin fisixMaxUsers, storage.currentAccount = index.val →
    registry.current = scan (storage.accounts.get index).name.toList

/-- The users are the names in the table. -/
theorem Represents.users {storage : AccountStorage} {registry : Registry Text Text}
    (represents : Represents storage registry) (name : Text) :
    name ∈ registry.users ↔ ∃ index : Fin fisixMaxUsers, index.val < storage.accountCount ∧
      scan (storage.accounts.get index).name.toList = some name := by
  rw [registry.mem_users_iff]
  constructor
  · rintro ⟨secret, known⟩
    obtain ⟨index, below, readName, _⟩ := (represents.secrets name secret).mp known
    exact ⟨index, below, readName⟩
  · rintro ⟨index, below, readName⟩
    obtain ⟨_, secret, _, _, readSecret, _⟩ := represents.sound.texts index below
    exact ⟨secret, (represents.secrets name secret).mpr ⟨index, below, readName, readSecret⟩⟩

/-- Names determine their slots, so an account can be spoken of by its name. -/
theorem Sound.slot_unique {storage : AccountStorage} (sound : Sound storage)
    (first second : Fin fisixMaxUsers) (firstBelow : first.val < storage.accountCount)
    (secondBelow : second.val < storage.accountCount)
    (same : scan (storage.accounts.get first).name.toList =
      scan (storage.accounts.get second).name.toList) :
    first = second := by
  rcases Nat.lt_trichotomy first.val second.val with before | equal | behind
  · exact absurd same (sound.distinct first second before secondBelow)
  · exact Fin.ext equal
  · exact absurd same.symm (sound.distinct second first behind firstBelow)

/-- The administrator is logged in exactly if the first account is current. -/
theorem Represents.admin_iff {storage : AccountStorage} {registry : Registry Text Text}
    (represents : Represents storage registry) :
    registry.current = some adminName ↔ storage.currentAccount = 0 := by
  have sound := represents.sound
  have administrator : scan (storage.accounts.get ⟨0, by decide⟩).name.toList =
      some adminName := sound.administrator
  constructor
  · intro current
    rcases sound.current with nobody | ⟨lower, upper⟩
    · rw [represents.nobody nobody] at current
      cases current
    · have bounded := sound.bounded
      have inside : storage.currentAccount.toNat < fisixMaxUsers := by omega
      have shown := represents.somebody ⟨storage.currentAccount.toNat, inside⟩ (by simp [lower])
      have below : storage.currentAccount.toNat < storage.accountCount := by omega
      have first := sound.slot_unique ⟨storage.currentAccount.toNat, inside⟩ ⟨0, by decide⟩ below
        sound.positive (by rw [← shown, current, administrator])
      have index := congrArg Fin.val first
      simp only at index
      omega
  · intro first
    rw [represents.somebody ⟨0, by decide⟩ first, administrator]

/-- The built-in table stands for the initial registry. -/
theorem represents_fallback (storage : AccountStorage) (account : Account)
    (isBuiltIn : IsBuiltIn account) : Represents (fallback storage account) initialRegistry := by
  have sound := fallback_sound storage account isBuiltIn
  obtain ⟨readName, readPassword, _⟩ := isBuiltIn
  have first := fallback_first storage account
  refine ⟨sound, rfl, ?_, fun _ => rfl, ?_⟩
  · intro name secret
    rw [initialRegistry, initial_secret]
    constructor
    · intro stored
      by_cases same : name = adminName
      · rw [if_pos same, Option.some.injEq] at stored
        refine ⟨⟨0, by decide⟩, Nat.zero_lt_one, ?_, ?_⟩
        · exact (congrArg (fun account => scan account.name.toList) first).trans (same ▸ readName)
        · exact (congrArg (fun account => scan account.password.toList) first).trans
            (stored ▸ readPassword)
      · rw [if_neg same] at stored
        cases stored
    · rintro ⟨index, below, scannedName, scannedPassword⟩
      obtain rfl : index = ⟨0, by decide⟩ := Fin.ext (Nat.lt_one_iff.mp below)
      have shownName := (congrArg (fun account => scan account.name.toList) first).symm.trans
        scannedName
      have shownPassword := (congrArg (fun account => scan account.password.toList) first).symm.trans
        scannedPassword
      obtain rfl := Option.some.inj (readName.symm.trans shownName)
      obtain rfl := Option.some.inj (readPassword.symm.trans shownPassword)
      rw [if_pos rfl]
  · intro index current
    have nobody : (fallback storage account).currentAccount = -1 := rfl
    omega

/-- Logging out keeps the representation. This is the table as a reboot finds it. -/
theorem Represents.logout {storage : AccountStorage} {registry : Registry Text Text}
    (represents : Represents storage registry) :
    Represents { storage with currentAccount := -1 } registry.logout := by
  refine ⟨represents.sound.withCurrent _ (Or.inl rfl), represents.size, represents.secrets,
    fun _ => rfl, ?_⟩
  intro index current
  simp only at current
  omega

/-- An accepted addition assigns the new name its secret and changes no other. -/
theorem Represents.add {storage updated : AccountStorage} {registry : Registry Text Text}
    (represents : Represents storage registry) {name password : Memory} {user secret : Text}
    (readName : scan name = some user) (readPassword : scan password = some secret)
    (passed : addGuard storage name password = some true)
    (computed : added storage name password = some updated) (new : user ∉ registry.users) :
    Represents updated (registry.assign user secret) := by
  have sound := represents.sound.add passed computed
  obtain ⟨newName, newSecret, account, _, _, scannedName, _, scannedSecret, _, room, rfl,
    storedName, storedSecret, _⟩ := add_effect passed computed
  obtain rfl := Option.some.inj (readName.symm.trans scannedName)
  obtain rfl := Option.some.inj (readPassword.symm.trans scannedSecret)
  have slot := get_set storage.accounts storage.accountCount room account
  refine ⟨sound, ?_, ?_, represents.nobody, ?_⟩
  · rw [registry.card_assign_new _ _ new, represents.size]
  · intro other stored
    rw [registry.secret_assign]
    constructor
    · intro known
      by_cases same : other = user
      · rw [if_pos same, Option.some.injEq] at known
        refine ⟨⟨storage.accountCount, room⟩, Nat.lt_succ_self _, ?_, ?_⟩
        · rw [slot, if_pos rfl, storedName, same]
        · rw [slot, if_pos rfl, storedSecret, known]
      · rw [if_neg same] at known
        obtain ⟨index, below, oldName, oldSecret⟩ := (represents.secrets other stored).mp known
        have apart : index.val ≠ storage.accountCount := Nat.ne_of_lt below
        refine ⟨index, Nat.lt_succ_of_lt below, ?_, ?_⟩
        · rw [slot, if_neg apart, oldName]
        · rw [slot, if_neg apart, oldSecret]
    · rintro ⟨index, below, shownName, shownSecret⟩
      rw [slot] at shownName shownSecret
      by_cases last : index.val = storage.accountCount
      · rw [if_pos last] at shownName shownSecret
        obtain rfl := Option.some.inj (storedName.symm.trans shownName)
        obtain rfl := Option.some.inj (storedSecret.symm.trans shownSecret)
        rw [if_pos rfl]
      · rw [if_neg last] at shownName shownSecret
        have old : index.val < storage.accountCount := by
          have bound : index.val < storage.accountCount + 1 := below
          omega
        have different : other ≠ user := by
          rintro rfl
          exact new ((represents.users other).mpr ⟨index, old, shownName⟩)
        rw [if_neg different]
        exact (represents.secrets other stored).mpr ⟨index, old, shownName, shownSecret⟩
  · intro index current
    have below : index.val ≠ storage.accountCount := by
      rcases represents.sound.current with nobody | ⟨_, upper⟩
      · simp only at current
        omega
      · simp only at current
        omega
    rw [slot, if_neg below]
    exact represents.somebody index current

/-- An accepted password change assigns the current name. -/
theorem Represents.changePassword {storage updated : AccountStorage}
    {registry : Registry Text Text} (represents : Represents storage registry) {old new : Memory}
    {user secret : Text} (readNew : scan new = some secret)
    (current : registry.current = some user)
    (passed : changeGuard storage old new = some true)
    (computed : changed storage new = some updated) :
    Represents updated (registry.assign user secret) := by
  have sound := represents.sound.changePassword passed computed
  obtain ⟨index, _, newSecret, field, isCurrent, _, _, scannedNew, _, rfl, stored, _⟩ :=
    changePassword_effect passed computed
  obtain rfl := Option.some.inj (readNew.symm.trans scannedNew)
  have shown := represents.somebody index isCurrent
  rw [current] at shown
  have below : index.val < storage.accountCount := by
    rcases represents.sound.current with nobody | ⟨_, upper⟩
    · omega
    · omega
  have known : user ∈ registry.users := (represents.users user).mpr ⟨index, below, shown.symm⟩
  have slot := get_set storage.accounts index index.isLt
    ⟨(storage.accounts.get index).name, field, (storage.accounts.get index).admin⟩
  have name : ∀ other : Fin fisixMaxUsers,
      ((storage.accounts.set index ⟨(storage.accounts.get index).name, field,
        (storage.accounts.get index).admin⟩).get other).name = (storage.accounts.get other).name := by
    intro other
    rw [slot]
    by_cases here : other.val = index.val
    · obtain rfl := Fin.ext here
      rw [if_pos rfl]
    · rw [if_neg here]
  refine ⟨sound, ?_, ?_, represents.nobody, ?_⟩
  · rw [registry.card_assign_known _ _ known, represents.size]
  · intro other wanted
    rw [registry.secret_assign]
    constructor
    · intro given
      by_cases same : other = user
      · rw [if_pos same, Option.some.injEq] at given
        refine ⟨index, below, ?_, ?_⟩
        · rw [name, ← shown, same]
        · rw [slot, if_pos rfl, stored, given]
      · rw [if_neg same] at given
        obtain ⟨place, inside, readName, readSecret⟩ := (represents.secrets other wanted).mp given
        have apart : place.val ≠ index.val := by
          intro here
          obtain rfl := Fin.ext here
          exact same (Option.some.inj (readName.symm.trans shown.symm))
        refine ⟨place, inside, ?_, ?_⟩
        · rw [name, readName]
        · rw [slot, if_neg apart, readSecret]
    · rintro ⟨place, inside, readName, readSecret⟩
      rw [name] at readName
      rw [slot] at readSecret
      by_cases here : place.val = index.val
      · obtain rfl := Fin.ext here
        rw [if_pos rfl] at readSecret
        obtain rfl := Option.some.inj (readName.symm.trans shown.symm)
        rw [if_pos rfl, ← readSecret, stored]
      · rw [if_neg here] at readSecret
        have different : other ≠ user := by
          rintro rfl
          have same := represents.sound.slot_unique place index inside below (readName.trans shown)
          exact here (congrArg Fin.val same)
        rw [if_neg different]
        exact (represents.secrets other wanted).mpr ⟨place, inside, readName, readSecret⟩
  · intro place isPlace
    rw [name]
    exact represents.somebody place isPlace

/-! ## Simulation -/

/-- A step without failures: a reboot finds the file system and every file call
works. -/
def Action.Calm : Action → Prop
  | .reboot restart => restart.services.any (·.locateProtocol) = true ∧ restart.faults = []
  | _ => True

section Simulation

variable {File τ : Type} [DecidableEq File]

/-- The relation between a machine and a registry. The store does not exist while
the registry is still the initial one; afterwards it holds the table. -/
structure Refines (file : File) (machine : Machine (Volume File × τ))
    (registry : Registry Text Text) : Prop where
  working : Working machine
  represents : Represents machine.accounts registry
  stored : machine.firmware.1.contents file = none ∧ registry.logout = initialRegistry ∨
    ∃ rest, machine.firmware.1.contents file = some (layout machine.accounts ++ rest)

variable (resolve : Text → File) (device : Firmware τ)

omit [DecidableEq File] in
/-- Who is logged in does not show in the store. -/
theorem Refines.withCurrent {file : File} {machine : Machine (Volume File × τ)}
    {registry next : Registry Text Text} (refines : Refines file machine registry) (current : Int)
    (represents : Represents { machine.accounts with currentAccount := current } next)
    (same : next.logout = registry.logout) :
    Refines file (machine.withAccounts { machine.accounts with currentAccount := current }) next := by
  refine ⟨refines.working.withAccounts _, represents, ?_⟩
  rcases refines.stored with ⟨missing, untouched⟩ | ⟨rest, held⟩
  · exact Or.inl ⟨missing, same.trans untouched⟩
  · exact Or.inr ⟨rest, held⟩

/-- An accepted update is saved, so the store holds the new table. -/
theorem update_refines (request : Request) {machine : Machine (Volume File × τ)}
    {registry : Registry Text Text} (working : Working machine)
    (passed : request.guard machine.accounts = some true) {updated : AccountStorage}
    (computed : request.table machine.accounts = some updated)
    (represents : Represents updated registry) :
    ∃ after, (request.perform (Volume.firmware resolve device)).run machine = .ok (true, after) ∧
      Refines (resolve storeName) after registry := by
  obtain ⟨result, after, ran, frame, faults, saved⟩ :=
    run_accountsSave resolve device (machine.withAccounts updated)
  obtain ⟨rfl, contents⟩ := (working.withAccounts updated).saved saved (store.encode_length _)
  have kept : after.accounts = updated := frame.accounts
  refine ⟨after, ?_, (working.withAccounts updated).after frame faults, ?_,
    Or.inr ⟨(contentOf machine.firmware.1 (resolve storeName)).drop storeWidth, ?_⟩⟩
  · rw [request.run_perform, passed, computed]
    exact ran
  · rw [kept]
    exact represents
  · rw [contents, Function.update_self, record_layout, withAccounts_accounts, kept]
    rfl

/-- A refused update answers with zero and changes nothing. -/
theorem refused_refines (request : Request) {machine : Machine (Volume File × τ)}
    {registry : Registry Text Text} (refines : Refines (resolve storeName) machine registry)
    (refused : request.guard machine.accounts = some false) :
    ∃ after, (request.perform (Volume.firmware resolve device)).run machine =
        .ok (false, after) ∧
      Refines (resolve storeName) after registry := by
  refine ⟨machine, ?_, refines⟩
  rw [request.run_perform, refused]

omit [DecidableEq File] in

/-- A login answers as the registry does, and leaves a table that stands for it. -/
theorem login_refines (name password : CString) {machine : Machine (Volume File × τ)}
    {registry : Registry Text Text} (refines : Refines (resolve storeName) machine registry) :
    ∃ after, (accountsLogin name.memory password.memory).run machine =
        .ok ((registry.login name.text password.text).1, after) ∧
      Refines (resolve storeName) after (registry.login name.text password.text).2 := by
  have represents := refines.represents
  have sound := represents.sound
  rw [run_accountsLogin]
  rcases login_exact sound name.readable password.readable with
    ⟨index, below, found, readName, readPassword⟩ | ⟨found, rejected⟩
  · have known : registry.secret name.text = some password.text :=
      (represents.secrets _ _).mpr ⟨index, below, readName, readPassword⟩
    rw [Registry.login, dif_pos known, found]
    refine ⟨machine.withAccounts { machine.accounts with currentAccount := index.val }, rfl, ?_⟩
    apply refines.withCurrent
    · refine ⟨sound.withCurrent _ (Or.inr ⟨by omega, by omega⟩), represents.size,
        represents.secrets, ?_, ?_⟩
      · intro nobody
        simp only at nobody
        omega
      · intro other current
        obtain rfl : other = index := Fin.ext (by simp only at current; omega)
        exact readName.symm
    · rfl
  · have unknown : registry.secret name.text ≠ some password.text := by
      intro known
      obtain ⟨index, below, readName, readPassword⟩ := (represents.secrets _ _).mp known
      exact rejected index below ⟨readName, readPassword⟩
    rw [Registry.login, dif_neg unknown, found]
    exact ⟨machine, rfl, refines⟩

/-- An addition answers as the registry does, and leaves a table that stands for it. -/
theorem add_refines (name password : CString) {machine : Machine (Volume File × τ)}
    {registry : Registry Text Text} (refines : Refines (resolve storeName) machine registry) :
    ∃ after, (accountsAdd (Volume.firmware resolve device) name.memory password.memory).run machine =
        .ok ((registry.add adminName fisixMaxUsers Valid Valid name.text password.text).1, after) ∧
      Refines (resolve storeName) after
        (registry.add adminName fisixMaxUsers Valid Valid name.text password.text).2 := by
  have represents := refines.represents
  have sound := represents.sound
  have admits : registry.Admits adminName fisixMaxUsers Valid Valid name.text password.text ↔
      machine.accounts.currentAccount = 0 ∧ Valid name.text ∧ Valid password.text ∧
        machine.accounts.accountCount ≠ fisixMaxUsers ∧
        ∀ index : Fin fisixMaxUsers, index.val < machine.accounts.accountCount →
          scan (machine.accounts.accounts.get index).name.toList ≠ some name.text := by
    have bounded := sound.bounded
    have room : machine.accounts.accountCount < fisixMaxUsers ↔
        machine.accounts.accountCount ≠ fisixMaxUsers := by omega
    rw [Registry.Admits, represents.admin_iff, represents.size, room, represents.users]
    simp only [not_exists, not_and, ne_eq]
  have guard := addGuard_exact sound name.readable password.readable
  rw [← decide_eq_decide.mpr admits] at guard
  by_cases admitted : registry.Admits adminName fisixMaxUsers Valid Valid name.text password.text
  · rw [decide_eq_true admitted] at guard
    rw [Registry.add, if_pos admitted]
    obtain ⟨updated, computed⟩ := table_exists (.add name.memory password.memory) sound guard
    exact update_refines resolve device (.add name.memory password.memory) refines.working guard
      computed (represents.add name.readable password.readable guard computed admitted.2.2.2.2)
  · rw [decide_eq_false admitted] at guard
    rw [Registry.add, if_neg admitted]
    exact refused_refines resolve device (.add name.memory password.memory) refines guard

/-- A password change answers as the registry does. -/
theorem changePassword_refines (old new : CString) {machine : Machine (Volume File × τ)}
    {registry : Registry Text Text} (refines : Refines (resolve storeName) machine registry) :
    ∃ after, (accountsChangePassword (Volume.firmware resolve device) old.memory new.memory).run
        machine = .ok ((registry.changeSecret Valid old.text new.text).1, after) ∧
      Refines (resolve storeName) after (registry.changeSecret Valid old.text new.text).2 := by
  have represents := refines.represents
  have sound := represents.sound
  rcases changeGuard_exact sound old.readable new.readable with
    ⟨nobody, guard⟩ | ⟨index, below, current, guard⟩
  · rw [Registry.changeSecret, represents.nobody nobody]
    exact refused_refines resolve device (.changePassword old.memory new.memory) refines guard
  · obtain ⟨user, _, readUser, _⟩ := sound.texts index below
    have shown : registry.current = some user := (represents.somebody index current).trans readUser
    have given : registry.secret user = some old.text ↔
        scan (machine.accounts.accounts.get index).password.toList = some old.text := by
      rw [represents.secrets]
      constructor
      · rintro ⟨place, inside, readName, readPassword⟩
        obtain rfl := sound.slot_unique place index inside below (readName.trans readUser.symm)
        exact readPassword
      · intro readPassword
        exact ⟨index, below, readUser, readPassword⟩
    have agree : (scan (machine.accounts.accounts.get index).password.toList = some old.text ∧
        Valid new.text) ↔ (registry.secret user = some old.text ∧ Valid new.text) := by rw [given]
    rw [decide_eq_decide.mpr agree] at guard
    rw [Registry.changeSecret, shown]
    by_cases accepted : registry.secret user = some old.text ∧ Valid new.text
    · rw [decide_eq_true accepted] at guard
      simp only [if_pos accepted]
      obtain ⟨updated, computed⟩ :=
        table_exists (.changePassword old.memory new.memory) sound guard
      exact update_refines resolve device (.changePassword old.memory new.memory) refines.working
        guard computed (represents.changePassword new.readable shown guard computed)
    · rw [decide_eq_false accepted] at guard
      simp only [if_neg accepted]
      exact refused_refines resolve device (.changePassword old.memory new.memory) refines guard

/-- A reboot brings back the table from the store, or the built-in one. -/
theorem reboot_refines (restart : Restart) (calm : (Action.reboot restart).Calm)
    (machine : Machine (Volume File × τ)) (registry : Registry Text Text)
    (stored : machine.firmware.1.contents (resolve storeName) = none ∧
        registry.logout = initialRegistry ∨
      ∃ storage rest, Represents storage registry ∧
        machine.firmware.1.contents (resolve storeName) = some (layout storage ++ rest)) :
    ∃ after, (perform resolve device (.reboot restart)).run machine = .ok (true, after) ∧
      Refines (resolve storeName) after registry.logout := by
  have working : Working (restarted restart machine) := ⟨calm.1, calm.2⟩
  obtain ⟨after, account, ran, isBuiltIn, table, contents, still⟩ := working.init resolve device
  have whole : (perform resolve device (.reboot restart)).run machine = .ok (true, after) := by
    have entered : (modify (restarted restart) : Routine (Volume File × τ) PUnit).run machine =
        .ok ((), restarted restart machine) := rfl
    rw [perform, run_bind_of_ok entered, run_bind_of_ok ran]
    rfl
  have content : contentOf (restarted restart machine).firmware.1 (resolve storeName) =
      contentOf machine.firmware.1 (resolve storeName) := rfl
  rw [content] at table
  refine ⟨after, whole, still, ?_, ?_⟩
  · rcases stored with ⟨missing, untouched⟩ | ⟨storage, rest, represents, held⟩
    · rw [contentOf, missing, Option.getD_none, List.take_nil, adoptedBytes_nil] at table
      rw [table, untouched]
      exact represents_fallback _ account isBuiltIn
    · rw [contentOf, held, Option.getD_some, adoptedBytes_layout _ _ _
        represents.sound.positive represents.sound.bounded] at table
      rw [table]
      exact represents.logout
  · rcases stored with ⟨missing, untouched⟩ | ⟨storage, rest, represents, held⟩
    · exact Or.inl ⟨(congrFun contents _).trans missing, untouched⟩
    · rw [contentOf, held, Option.getD_some, adoptedBytes_layout _ _ _
        represents.sound.positive represents.sound.bounded] at table
      refine Or.inr ⟨rest, ?_⟩
      rw [contents, table]
      exact held

/-- Each calm step answers as the registry does and keeps the relation. -/
theorem perform_refines (action : Action) (calm : action.Calm) (machine : Machine (Volume File × τ))
    (registry : Registry Text Text) (refines : Refines (resolve storeName) machine registry) :
    ∃ after, (perform resolve device action).run machine =
        .ok ((respond action registry).1, after) ∧
      Refines (resolve storeName) after (respond action registry).2 := by
  cases action with
  | login name password => exact login_refines resolve name password refines
  | add name password => exact add_refines resolve device name password refines
  | changePassword old new => exact changePassword_refines resolve device old new refines
  | reboot restart =>
    apply reboot_refines resolve device restart calm machine registry
    rcases refines.stored with fresh | ⟨rest, held⟩
    · exact Or.inl fresh
    · exact Or.inr ⟨machine.accounts, rest, refines.represents, held⟩

/-- On a working volume without a store file, a session answers, step by step, as the abstract
registry does, and leaves a table that stands for it. The induction is over the steps, and
carries along that the store holds the table that the next reboot adopts. -/
theorem session_refines (machine : Machine (Volume File × τ))
    (absent : machine.firmware.1.contents (resolve storeName) = none) (first : Restart)
    (actions : List Action) (calm : ∀ action ∈ .reboot first :: actions, action.Calm) :
    ∃ after, (session resolve device (.reboot first :: actions)).run machine =
        .ok ((answers respond (.reboot first :: actions) initialRegistry).1, after) ∧
      Represents after.accounts (answers respond (.reboot first :: actions) initialRegistry).2 := by
  obtain ⟨booted, ran, refines⟩ := reboot_refines resolve device first
    (calm _ List.mem_cons_self) machine initialRegistry (Or.inl ⟨absent, rfl⟩)
  obtain ⟨after, reran, final⟩ := simulates actions
    (fun action member state current =>
      perform_refines resolve device action (calm _ (List.mem_cons_of_mem _ member)) state current)
    booted initialRegistry.logout refines
  refine ⟨after, ?_, final.represents⟩
  rw [session, List.mapM_cons, run_bind_of_ok ran, run_bind_of_ok reran]
  rfl

end Simulation

/-- A reboot onto a working volume, on which no call fails. -/
def calmBoot : Restart where
  image := initialAccounts
  services := some ⟨true, true, true, true⟩
  faults := []
  atomic := by decide

/-- The administrator adds a user, who after a reboot fails to log in with the
wrong password. -/
def calmActions : List Action :=
  [.login adminString fisixString, .add bobString fisixString, .reboot calmBoot,
    .login bobString adminString]

/-- A session with a login, a new account and a rejected password, without faults: two accounts
are left. -/
theorem session_refines_calm :
    ∃ after, (session id Volume.quiet (.reboot calmBoot :: calmActions)).run
        (Volume.started (fun _ => none) []) = .ok ([true, true, true, true, false], after) ∧
      after.accounts.accountCount = 2 := by
  have calm : ∀ action ∈ .reboot calmBoot :: calmActions, action.Calm := by
    intro action member
    simp only [calmActions, List.mem_cons, List.not_mem_nil, or_false] at member
    rcases member with rfl | rfl | rfl | rfl | rfl
    · exact ⟨rfl, rfl⟩
    · trivial
    · trivial
    · exact ⟨rfl, rfl⟩
    · trivial
  obtain ⟨after, ran, represents⟩ := session_refines id Volume.quiet
    (Volume.started (fun _ => none) []) rfl calmBoot calmActions calm
  have results : (answers respond (.reboot calmBoot :: calmActions) initialRegistry).1 =
      [true, true, true, true, false] := by decide
  have users : (answers respond (.reboot calmBoot :: calmActions) initialRegistry).2.users.card =
      2 := by decide
  exact ⟨after, results ▸ ran, represents.size.symm.trans users⟩

end ExistentOS.Accounts
