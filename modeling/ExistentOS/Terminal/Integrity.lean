import ExistentOS.Terminal.Authorization
import ExistentOS.Terminal.FileEffects

/-!
# Integrity of the account store

Nothing in the shell relates the file commands to the account operations: a user without
administrator rights can remove the store, or replace its record. What a session does to
the store is therefore stated for sessions that spare it: no `rm` of the store, no `write`
to it, and no append to it when the positioning at the end has failed. Such a session
changes nothing but the own password, in memory as well as in the file, whatever else the
user enters and whichever file calls fail.
-/

namespace ExistentOS.Terminal

open Programs Terminated Accounts Volume

variable {File τ : Type} [DecidableEq File]

/-! ## Sessions that spare the store -/

/-- No login is dispatched, no `rm` names the store, and whatever stores words in it is an
append that finds its end. -/
structure Spares (resolve : Text → File) (events : List Event) : Prop where
  login : NoLogin events
  remove : ∀ word path, Event.command (text "rm") [word, path] ∈ events →
    resolve path ≠ resolve storeName
  store : ∀ name word path first rest, name = text "write" ∨ name = text "append" →
    Event.command name (word :: path :: first :: rest) ∈ events →
    resolve path = resolve storeName → word = text "append" ∧ SeeksEnd events

omit [DecidableEq File] in
instance (resolve : Text → File) : Hereditary (Spares resolve) := ⟨by
  intro few many within spares
  refine ⟨Hereditary.part within spares.login, ?_, ?_⟩
  · intro word path member
    exact spares.remove word path (within member)
  · intro name word path first rest storing member same
    obtain ⟨appending, seeks⟩ := spares.store name word path first rest storing (within member) same
    exact ⟨appending, Hereditary.part within seeks⟩⟩

/-- The table in memory and the one in the store differ from a reference in the own
password at most. -/
structure Holds (file : File) (reference : AccountStorage) (machine : Machine (Volume File × τ)) :
    Prop where
  memory : OwnPasswordOnly reference machine.accounts
  stored : ∃ bytes table, machine.firmware.1.contents file = some bytes ∧
    bytes.take storeWidth = layout table ∧ OwnPasswordOnly reference table

/-- What a step of a restricted user may do to the account table and to the store. -/
def Securing (file : File) (before after : Machine (Volume File × τ)) : Prop :=
  ∀ reference : AccountStorage, Restricted reference →
    1 ≤ reference.accountCount ∧ reference.accountCount ≤ fisixMaxUsers →
    Holds file reference before → Holds file reference after

omit [DecidableEq File] in
instance (file : File) : Std.Refl (α := Machine (Volume File × τ)) (Securing file) :=
  ⟨fun _ _ _ _ holds => holds⟩

omit [DecidableEq File] in
instance (file : File) : IsTrans (Machine (Volume File × τ)) (Securing file) :=
  ⟨fun _ _ _ early late reference restricted range holds =>
    late reference restricted range (early reference restricted range holds)⟩

omit [DecidableEq File] in
/-- A store that grows at its end starts with the same record. -/
theorem securing_of_grown {file : File} {before after : Machine (Volume File × τ)}
    (grown : Grown file before after) : Securing file before after := by
  rintro reference _ _ ⟨memory, bytes, table, present, starts, own⟩
  obtain ⟨more, extended⟩ := grown.grown bytes present
  have whole : storeWidth ≤ bytes.length := by
    have width := congrArg List.length starts
    rw [layout_length, List.length_take] at width
    omega
  refine ⟨grown.accounts ▸ memory, bytes ++ more, table, extended, ?_, own⟩
  rw [List.take_append_of_le_length whole, starts]

/-- The relation of the interpreter: a session that spares the store changes nothing but the
own password. -/
abbrev Secured (resolve : Text → File) :
    Machine (Volume File × τ) → Machine (Volume File × τ) → Prop :=
  Provided (Spares resolve) (Securing (resolve storeName))

omit [DecidableEq File] in
/-- What disturbs nothing secures the store. -/
theorem secured_of_undisturbed {resolve : Text → File} {before after : Machine (Volume File × τ)}
    (undisturbed : Undisturbed before after) : Secured resolve before after :=
  provided_of undisturbed.traced (securing_of_grown (undisturbed.grown (resolve storeName)))

variable (resolve : Text → File) (device : Firmware τ)

instance : LineBlind (Securing (τ := τ) (resolve storeName)) :=
  ⟨fun _ securing reference restricted range holds =>
    have ⟨memory, stored⟩ := securing reference restricted range holds
    ⟨memory, stored⟩⟩

instance : TerminalFrame (Secured (τ := τ) resolve) :=
  ⟨fun _ => keeps_modify fun _ => secured_of_undisturbed (Undisturbed.of_eq rfl rfl rfl)⟩

instance : QuietFrame (Volume.firmware resolve device) (Secured resolve) :=
  QuietFrame.mono (R := Undisturbed) inferInstance fun _ _ => secured_of_undisturbed

/-! ## The account operations -/

/-- A save writes a mixture of what is stored and of the table in memory, and both differ
from the reference in the own password at most. -/
theorem saved_holds {file : File} {reference : AccountStorage}
    {machine : Machine (Volume File × τ)} {volume : Volume File} {result : Bool}
    (range : 1 ≤ reference.accountCount ∧ reference.accountCount ≤ fisixMaxUsers)
    (holds : Holds file reference machine)
    (saved : Saved file (store.encode (Accounts.record machine.accounts)) machine volume result) :
    ∃ bytes table, volume.contents file = some bytes ∧
      bytes.take storeWidth = layout table ∧ OwnPasswordOnly reference table := by
  obtain ⟨memory, bytes, table, present, starts, own⟩ := holds
  have content : contentOf machine.firmware.1 file = bytes := by
    rw [contentOf, present, Option.getD_some]
  cases saved with
  | refused _ contents => exact ⟨bytes, table, contents ▸ present, starts, own⟩
  | unpositioned _ contents =>
    refine ⟨bytes, table, ?_, starts, own⟩
    rw [contents, Function.update_self, content]
  | written moved transferred contents =>
    rw [record_layout] at transferred
    obtain ⟨count, cut⟩ : ∃ count, moved = (layout machine.accounts).take count := by
      rw [transferred]
      cases (machine.firmware.1.faultAt 5).writeAtMost with
      | none => exact ⟨storeWidth, (List.take_of_length_le (Nat.le_of_eq (layout_length _))).symm⟩
      | some count => exact ⟨count, rfl⟩
    obtain ⟨mixed, same, ownMixed⟩ := torn_own count range memory own
    refine ⟨_, mixed, by rw [contents, Function.update_self], ?_, ownMixed⟩
    rw [cut, content, torn_file machine.accounts table count bytes starts, same]

/-- A restricted user cannot add accounts, so the store is not written to. -/
theorem secured_accountsAdd (name password : Memory) :
    Keeps (Secured resolve) (accountsAdd (Volume.firmware resolve device) name password) := by
  apply keeps_provided (traced_accountsAdd _ name password)
  intro machine result after _ ran _ _ reference restricted _ holds
  rw [run_accountsAdd_restricted _ name password (holds.memory.restricted restricted)] at ran
  cases ran
  exact holds

/-- A changed password reaches the store at most in the entry of the user. -/
theorem secured_accountsChangePassword (old new : Memory) :
    Keeps (Secured resolve) (accountsChangePassword (Volume.firmware resolve device) old new) := by
  apply keeps_provided (traced_accountsChangePassword _ old new)
  intro machine result after _ ran _ _ reference restricted range holds
  have own : wp (accountsChangePassword (Volume.firmware resolve device) old new)
      (fun _ reached => Holds (resolve storeName) reference reached) (fun _ => True) machine := by
    rw [accountsChangePassword, wp_bind, wp_get, wp_bind, wp_orStop]
    refine ⟨fun admitted _ => ?_, fun _ => trivial⟩
    rw [wp_ite, wp_bind, wp_orStop, wp_pure]
    refine ⟨fun _ => ⟨fun updated computed => ?_, fun _ => trivial⟩, fun _ => holds⟩
    rw [wp_bind, wp_modifyAccounts]
    have loggedIn := (holds.memory.restricted restricted).loggedIn
    have before : Holds (resolve storeName) reference (machine.withAccounts updated) :=
      ⟨holds.memory.trans (changed_own computed loggedIn), holds.stored⟩
    apply wp_accountsSave resolve device
    intro reached _ only _ saved
    refine ⟨?_, saved_holds range before saved⟩
    rw [only.accounts]
    exact before.memory
  exact ((wp_iff _ _ _ _).mp own).1 result after ran

/-! ## The commands that do more -/

/-- An argument is the word at its place. -/
theorem wp_argument {σ : Type} (argv : List Text) (index : Nat) {machine : Machine σ}
    {Q : Memory → Machine σ → Prop}
    (next : ∀ token, argv[index]? = some token → Q (token ++ [0]) machine) :
    wp (argument argv index) Q (fun _ => True) machine := by
  rw [argument, wp_bind, wp_orOverrun]
  exact ⟨fun token found => next token found, fun _ => trivial⟩

/-- The word of a record, as the record shows it. -/
def shownWord (token : Text) : Text := (scan (token ++ [0])).getD []

/-- A path that can be read is the shown word. -/
theorem shownWord_of {token name : Text} (readable : scan (token ++ [0]) = some name) :
    shownWord token = name := by
  rw [shownWord, readable, Option.getD_some]

/-- A usage line leaves a file alone. -/
theorem grown_orUsage {file : File} (done : Bool) (usage : String) :
    Keeps (Grown file) (orUsage (Volume.firmware resolve device) done usage) :=
  (composed_orUsage done usage).keepsQuiet

/-- A reply only makes files grow, and none at all. -/
theorem grown_reply {file : File} (message : String) :
    Keeps (Grown file) (reply (Volume.firmware resolve device) message) :=
  (composed_reply message).keepsQuiet

/-- A removal that does not name a file leaves it alone. -/
theorem wp_removing {file : File} (argv : List Text) (usage : String)
    (machine : Machine (Volume File × τ))
    (spared : ∀ word path, argv.map shownWord = [word, path] → resolve path ≠ file) :
    wp (onFile (Volume.firmware resolve device) argv
        (terminalRemoveFile (Volume.firmware resolve device)) usage)
      (fun _ after => Grown file machine after) (fun _ => True) machine := by
  rw [onFile, wp_ite]
  constructor
  · intro two
    rw [wp_bind]
    apply wp_argument
    intro token found
    obtain ⟨first, second, rfl⟩ := List.length_eq_two.mp two
    obtain rfl : second = token := Option.some.inj found
    have other : ∀ name, scan (second ++ [0]) = some name → resolve name ≠ file := by
      intro name readable
      apply spared (shownWord first) name
      rw [List.map_cons, List.map_cons, List.map_nil, shownWord_of readable]
    have removed := grown_terminalRemoveFile resolve device _ other
    exact (keeps_iff_wp _).mp
      (keeps_bind removed fun done => grown_orUsage resolve device done usage) machine
  · intro _
    exact (keeps_iff_wp _).mp (grown_reply resolve device usage) machine

/-- A first word that is not matched as an append is another word. -/
theorem not_append_word {token : Text}
    (isMatch : terminalMatchCommand (token ++ [0]) (constant "append") = some false) :
    shownWord token ≠ text "append" := by
  intro same
  cases readable : scan (token ++ [0]) with
  | none =>
    rw [shownWord, readable] at same
    cases same
  | some found =>
    rw [shownWord_of readable] at same
    subst same
    obtain ⟨_, rest, split⟩ := scan_split _ _ readable
    have matched := terminalMatchCommand_self (text "append") rest (by decide)
    rw [split] at isMatch
    have decided : some true = some false := matched.symm.trans isMatch
    cases decided

/-- Storing words changes a file only if it is an append to it or names another one. -/
theorem wp_storing (file : File) (argv : List Text) (machine : Machine (Volume File × τ)) :
    wp (storeWordsOf (Volume.firmware resolve device) argv)
      (fun _ after => ∀ events, after.trace = machine.trace ++ events →
        (∀ word path first rest, argv.map shownWord = word :: path :: first :: rest →
          resolve path = file → word = text "append" ∧ SeeksEnd events) → Grown file machine after)
      (fun _ => True) machine := by
  rw [storeWordsOf, wp_bind, isCall, if_pos rfl, wp_bind]
  apply wp_argument
  intro command commandFound
  rw [wp_orOverrun]
  refine ⟨fun append isMatch => ?_, fun _ => trivial⟩
  rw [wp_ite]
  constructor
  · intro three
    rw [wp_bind]
    apply wp_argument
    intro token found
    obtain ⟨first, second, third, rest, rfl⟩ :
        ∃ first second third rest, argv = first :: second :: third :: rest := by
      rcases argv with _ | ⟨first, _ | ⟨second, _ | ⟨third, rest⟩⟩⟩
      · exact absurd three (by simp)
      · exact absurd three (by simp)
      · exact absurd three (by simp)
      · exact ⟨first, second, third, rest, rfl⟩
    obtain rfl : first = command := Option.some.inj commandFound
    obtain rfl : second = token := Option.some.inj found
    rw [wp_bind, wp_get]
    generalize List.map (Word.memory machine.terminal)
      ((first :: second :: third :: rest).drop 2) = stored
    by_cases spared : ∀ name, scan (second ++ [0]) = some name → resolve name ≠ file
    · have written := grown_terminalWriteFile resolve device _ stored append spared
      have kept : Keeps (Grown file) _ := keeps_bind written fun done =>
        grown_orUsage resolve device done "usage: write|append <file> <text"
      apply wp_mono ((keeps_iff_wp _).mp kept machine)
      · exact fun _ after grown _ _ _ => grown
      · exact fun _ _ => trivial
    · simp only [not_forall, not_not] at spared
      obtain ⟨name, readable, same⟩ := spared
      have shown : (first :: second :: third :: rest).map shownWord =
          shownWord first :: name :: shownWord third :: rest.map shownWord := by
        rw [List.map_cons, List.map_cons, List.map_cons, shownWord_of readable]
      cases append with
      | true =>
        have written : Keeps (Provided SeeksEnd (Grown file)) _ :=
          grown_append resolve device (second ++ [0]) stored
        have told : ∀ done, Keeps (Provided SeeksEnd (Grown file)) (orUsage
            (Volume.firmware resolve device) done "usage: write|append <file> <text") := by
          intro done
          have composed : Composed (Volume.firmware resolve device) (fun _ => True) Nothing _ :=
            composed_orUsage done "usage: write|append <file> <text"
          exact composed.keepsQuiet
        have kept : Keeps (Provided SeeksEnd (Grown file)) _ :=
          keeps_bind written fun done => told done
        apply wp_mono ((keeps_iff_wp _).mp kept machine)
        · intro _ after provided events traced allowed
          exact provided_events provided traced (allowed _ _ _ _ shown same).2
        · exact fun _ _ => trivial
      | false =>
        apply wp_any
        intro _ after events _ allowed
        exact absurd (allowed _ _ _ _ shown same).1 (not_append_word isMatch)
  · intro _
    have kept : Keeps (Grown file) _ :=
      grown_reply resolve device "usage: write|append <file> <text"
    apply wp_mono ((keeps_iff_wp _).mp kept machine)
    · exact fun _ after grown _ _ _ => grown
    · exact fun _ _ => trivial

omit [DecidableEq File] in

/-- Recording a command disturbs nothing. -/
theorem secured_record (name : String) (argv : List Text) :
    Keeps (Secured (τ := τ) resolve) (record name argv) := by
  apply keeps_bind keeps_get
  intro machine
  apply keeps_modify
  intro before
  exact secured_of_undisturbed ⟨rfl, ⟨[_], rfl, by simp⟩, fun _ _ present => present⟩

omit [DecidableEq File] in
/-- A recorded command secures the store if, whenever its record allows it, the store only
grows. -/
theorem secured_of_grown {name : String} {argv : List Text} {run : Routine (Volume File × τ) Bool}
    (traced : Keeps (Emits fun _ => True) run)
    (grown : ∀ machine : Machine (Volume File × τ), ∀ result after events,
      run.run machine = .ok (result, after) → after.trace = machine.trace ++ events →
      Spares resolve (.command (text name) (argv.map shownWord) :: events) →
      Grown (resolve storeName) machine after) :
    Keeps (Secured resolve) (do record name argv; run) := by
  apply keeps_recorded traced
  intro machine result after events ran extended spares
  have noted := grown _ result after events ran (by rw [extended]; simp) spares
  exact securing_of_grown ⟨noted.accounts, noted.grown⟩

/-- All commands that do more secure the store. -/
theorem secured_commandStep (α : Type) (routine : Routine (Volume File × τ) α)
    (named : CommandStep (Volume.firmware resolve device) α routine) :
    Keeps (Secured resolve) routine := by
  have composes : ∀ {α : Type} {step : Routine (Volume File × τ) α},
      Composed (Volume.firmware resolve device) (fun _ => True)
        (fun _ part => Keeps (Secured resolve) part) step → Keeps (Secured resolve) step :=
    fun composed => composed.keeps fun _ _ kept => kept
  have storage : ∀ (α : Type) (step : Routine (Volume File × τ) α),
      StorageStep (Volume.firmware resolve device) α step →
      CommandEffect (Volume.firmware resolve device) α step :=
    fun _ _ named => CommandEffect.storage named
  have files : ∀ (α : Type) (step : Routine (Volume File × τ) α),
      FileStep (Volume.firmware resolve device) α step →
      CommandEffect (Volume.firmware resolve device) α step :=
    fun _ _ named => storage _ _ (StorageStep.file named)
  have recorded := secured_record (τ := τ) resolve
  have drives := fun drive : CHAR16 => TerminalFrame.modifyTerminal (R := Secured (τ := τ) resolve)
    fun terminal => terminalSetDrive drive { terminal with currentDrive := drive }
  cases named with
  | record name argv => exact recorded name argv
  | remove argv =>
    apply secured_of_grown resolve (emits_composed (composed_onFile argv _
      fun _ ends => composed_terminalRemoveFile files (Or.inl ends)))
    intro machine result after events ran _ spares
    have spared : ∀ word path, argv.map shownWord = [word, path] →
        resolve path ≠ resolve storeName := by
      intro word path shown
      exact spares.remove word path (shown ▸ List.mem_cons_self)
    have removed := wp_removing resolve device argv "usage: rm <file>" machine spared
    exact ((wp_iff _ _ _ _).mp removed).1 result after ran
  | store name member argv nonempty =>
    apply secured_of_grown resolve (emits_composed (composed_storeWordsOf files nonempty))
    intro machine result after events ran extended spares
    have written := wp_storing resolve device (resolve storeName) argv machine
    apply ((wp_iff _ _ _ _).mp written).1 result after ran events extended
    intro word path first rest shown same
    have storing : text name = text "write" ∨ text name = text "append" := by
      rcases List.mem_cons.mp member with rfl | later
      · exact Or.inl rfl
      · exact Or.inr (congrArg text (List.mem_singleton.mp later))
    obtain ⟨appending, seeks⟩ :=
      spares.store _ word path first rest storing (shown ▸ List.mem_cons_self) same
    exact ⟨appending, Hereditary.part (List.subset_cons_self _ _) seeks⟩
  | list name member argv =>
    exact keeps_bind (recorded name argv) (fun _ => composes (composed_listDrive drives trivial argv))
  | directory argv =>
    exact keeps_bind (recorded _ argv)
      (fun _ => composes (composed_changeDirectory drives trivial argv))
  | add argv =>
    exact keeps_bind (recorded _ argv) (fun _ => composes (composed_addUser argv
      fun name password _ => Composed.further (secured_accountsAdd resolve device name password)))
  | change fuel argv =>
    exact keeps_bind (recorded _ argv) (fun _ => keeps_bind
      (composes (composed_changePassword trivial fuel
        fun old new _ => Composed.further (secured_accountsChangePassword resolve device old new)))
      (fun _ => keeps_pure false))
  | login fuel argv =>
    have composed : Composed (Volume.firmware resolve device) (fun _ => True)
        (CommandEffect (Volume.firmware resolve device))
        (do let _ ← terminalLogin (Volume.firmware resolve device) fuel; return false) :=
      Composed.bind (composed_terminalLogin trivial fuel
        fun _ _ _ => composed_accountsLogin storage (Or.inr trivial))
        (fun _ => Composed.pure false)
    apply keeps_recorded (emits_composed composed)
    intro machine result after events _ _ spares
    exact absurd List.mem_cons_self (spares.login (wordsOf machine.terminal argv))

/-! ## Sessions -/

/-- A table with a user in use who is no administrator was adopted from the store. -/
theorem adopted_of_restricted {storage initial : AccountStorage} {account : Account}
    (isBuiltIn : IsBuiltIn account) {bytes : List UInt8}
    (count : storage.accountCount =
      (adoptedBytes (fallback initial account) (bytes.take storeWidth)).accountCount)
    (entries : storage.accounts =
      (adoptedBytes (fallback initial account) (bytes.take storeWidth)).accounts)
    (inUse : storage.currentAccount < storage.accountCount) (restricted : Restricted storage) :
    Accepted bytes := by
  by_contra rejected
  rw [adoptedBytes_take, if_neg rejected] at count entries
  obtain ⟨loggedIn, ordinary⟩ := restricted
  have single : storage.accountCount = 1 := count
  have first : storage.currentAccount = 0 := by omega
  have account : storage.accounts[0]? = some account := by
    rw [entries, Vector.getElem?_eq_getElem (by decide), fallback_first]
  simp [accountsIsAdmin, first, account, isBuiltIn.2.2] at ordinary

/-- The bytes of a file determine the table that the next initialisation adopts from it. -/
theorem reloaded_table {reboot next : Machine (Volume File × τ)} (working : Working reboot)
    (ran : (accountsInit (Volume.firmware resolve device)).run reboot = .ok ((), next)) :
    ∃ account, IsBuiltIn account ∧ next.accounts = adoptedBytes (fallback reboot.accounts account)
      ((contentOf reboot.firmware.1 (resolve storeName)).take storeWidth) := by
  obtain ⟨after, account, returned, isBuiltIn, table, _, _⟩ := working.init resolve device
  rw [ran] at returned
  cases returned
  exact ⟨account, isBuiltIn, table⟩

/-- A session that starts with the stored table holds it. -/
theorem holds_of_loaded {boot booted machine : Machine (Volume File × τ)} (working : Working boot)
    (loaded : (accountsInit (Volume.firmware resolve device)).run boot = .ok ((), booted))
    (sameStore : machine.firmware.1.contents (resolve storeName) =
      boot.firmware.1.contents (resolve storeName))
    (count : machine.accounts.accountCount = booted.accounts.accountCount)
    (entries : machine.accounts.accounts = booted.accounts.accounts)
    (inUse : machine.accounts.currentAccount < machine.accounts.accountCount)
    (restricted : Restricted machine.accounts) :
    (1 ≤ machine.accounts.accountCount ∧ machine.accounts.accountCount ≤ fisixMaxUsers) ∧
      Holds (resolve storeName) machine.accounts machine := by
  obtain ⟨account, isBuiltIn, table⟩ := reloaded_table resolve device working loaded
  rw [table] at count entries
  have accepted := adopted_of_restricted isBuiltIn count entries inUse restricted
  rw [adoptedBytes_take, if_pos accepted] at count entries
  have admissible := ((accepted_iff _).mpr accepted).2
  obtain ⟨bytes, present⟩ :
      ∃ bytes, machine.firmware.1.contents (resolve storeName) = some bytes := by
    apply Option.ne_none_iff_exists'.mp
    intro missing
    have width := accepted.1
    rw [contentOf, ← sameStore, missing] at width
    exact absurd width (by decide)
  have content : contentOf boot.firmware.1 (resolve storeName) = bytes := by
    rw [contentOf, ← sameStore, present, Option.getD_some]
  rw [content] at accepted count entries
  refine ⟨?_, OwnPasswordOnly.refl _, bytes, machine.accounts, present, ?_, OwnPasswordOnly.refl _⟩
  · rw [count]
    exact adopted_count _ _ (content ▸ admissible)
  · have written := layout_adopted (fallback boot.accounts account) bytes accepted
    rw [← written, layout, layout, count, entries]

/-- Integrity of the account store. A restricted user whose session spares the store leaves
everything in it except the own password as it was, whichever file calls of the session
fail: the next initialisation on a working volume finds the same names, administrator flags
and passwords of others as an initialisation before the session. -/
theorem session_keeps_others (fuel : Nat) (lines : List Memory)
    (boot booted machine after reboot next : Machine (Volume File × τ)) (results : List Bool)
    (bootWorks : Working boot)
    (loaded : (accountsInit (Volume.firmware resolve device)).run boot = .ok ((), booted))
    (sameStore : machine.firmware.1.contents (resolve storeName) =
      boot.firmware.1.contents (resolve storeName))
    (count : machine.accounts.accountCount = booted.accounts.accountCount)
    (entries : machine.accounts.accounts = booted.accounts.accounts)
    (inUse : machine.accounts.currentAccount < machine.accounts.accountCount)
    (restricted : Restricted machine.accounts)
    (ran : (runCommands (Volume.firmware resolve device) fuel lines).run machine =
      .ok (results, after))
    (rebootWorks : Working reboot)
    (left : reboot.firmware.1.contents (resolve storeName) =
      after.firmware.1.contents (resolve storeName))
    (reloaded : (accountsInit (Volume.firmware resolve device)).run reboot = .ok ((), next)) :
    ∃ events, after.trace = machine.trace ++ events ∧
      (Spares resolve events →
        OthersKept machine.accounts.currentAccount booted.accounts next.accounts) := by
  have kept : Keeps (Secured resolve) (runCommands (Volume.firmware resolve device) fuel lines) :=
    keeps_mapM lines _ fun command _ =>
      keeps_terminalExecuteCommand (secured_commandStep resolve device) fuel command
  obtain ⟨events, traced, securing⟩ := kept.related machine results after ran
  refine ⟨events, traced, fun spares => ?_⟩
  obtain ⟨range, before⟩ := holds_of_loaded resolve device bootWorks loaded sameStore count entries
    inUse restricted
  obtain ⟨_, bytes, table, present, starts, own⟩ :=
    securing spares machine.accounts restricted range before
  obtain ⟨account, _, adopted⟩ := reloaded_table resolve device rebootWorks reloaded
  have content : contentOf reboot.firmware.1 (resolve storeName) = bytes := by
    rw [contentOf, left, present, Option.getD_some]
  have tableRange : 1 ≤ table.accountCount ∧ table.accountCount ≤ fisixMaxUsers := by
    rw [own.others.count]
    exact range
  have whole : (layout table ++ []).take storeWidth = bytes.take storeWidth := by
    rw [List.append_nil, List.take_of_length_le (Nat.le_of_eq (layout_length table)), starts]
  rw [content, ← whole, adoptedBytes_layout _ table [] tableRange.1 tableRange.2] at adopted
  have initial : OthersKept machine.accounts.currentAccount booted.accounts machine.accounts :=
    OthersKept.of_eq count entries
  have final : OthersKept machine.accounts.currentAccount table next.accounts := by
    rw [adopted]
    exact OthersKept.of_eq rfl rfl
  exact (initial.trans own.others).trans final

/-! ## Two sessions -/

/-- A check of single events. A session all of whose events pass it spares the store. -/
def sparing : Event → Bool
  | .command name arguments => !isLogin (.command name arguments) && name ≠ text "rm" &&
    (name ≠ text "write" && name ≠ text "append" || arguments.head? = some (text "append"))
  | .setPosition _ position status => position ≠ endOfFile || !efiError status
  | _ => true

omit [DecidableEq File] in
/-- Events that pass the check one by one spare the store as a whole. -/
theorem spares_of_all {events : List Event} (passed : events.all sparing = true) :
    Spares resolve events := by
  have each : ∀ event ∈ events, sparing event = true := List.all_eq_true.mp passed
  refine ⟨?_, ?_, ?_⟩
  · intro arguments member
    have check := each _ member
    simp [sparing, isLogin] at check
  · intro word path member
    have check := each _ member
    simp [sparing] at check
  · intro name word path first rest storing member _
    refine ⟨?_, ?_⟩
    · have check := each _ member
      rcases storing with rfl | rfl
      · simp only [sparing] at check
        simpa using ((Bool.and_eq_true _ _).mp check).2
      · simp only [sparing] at check
        simpa using ((Bool.and_eq_true _ _).mp check).2
    · intro file status seek
      simpa [sparing] using each _ seek

/-- A volume whose store holds the administrator and a second user. -/
def stocked : Machine (Volume Text × Unit) :=
  Volume.started (fun path => if path = storeName then some (layout twoUsers) else none) []

/-- The second user is logged in on it, who is no administrator. -/
def asBob : Machine (Volume Text × Unit) :=
  stocked.withAccounts { twoUsers with currentAccount := 1 }

/-- The stored table is loaded from this volume. -/
theorem stocked_loaded :
    ∃ booted, (accountsInit (Volume.firmware id Volume.quiet)).run stocked = .ok ((), booted) ∧
      booted.accounts = { twoUsers with currentAccount := -1 } := by
  have working : Working stocked := ⟨rfl, rfl⟩
  obtain ⟨booted, account, ran, _, table, _, _⟩ := working.init id Volume.quiet
  have content : contentOf stocked.firmware.1 (id storeName) = layout twoUsers ++ [] := by
    rw [List.append_nil]
    rfl
  rw [content, adoptedBytes_layout _ twoUsers [] (by decide) (by decide)] at table
  exact ⟨booted, ran, table⟩

/-- The user of the session is logged in and is no administrator. -/
theorem bob_restricted : Restricted asBob.accounts := ⟨by decide, by decide⟩

/-- A session of `bob` that tries what it may not: the store grows behind its end, and the other
accounts are those of before at the next start. -/
theorem session_keeps_others_bob :
    ∃ booted results after next,
      (accountsInit (Volume.firmware id Volume.quiet)).run stocked = .ok ((), booted) ∧
      (runCommands (Volume.firmware id Volume.quiet) 3
        [constant "touch \\fisix_users.db & append \\fisix_users.db more",
          constant "useradd eve secret & whoami"]).run asBob = .ok (results, after) ∧
      (accountsInit (Volume.firmware id Volume.quiet)).run
        (Volume.started after.firmware.1.contents []) = .ok ((), next) ∧
      OthersKept 1 booted.accounts next.accounts := by
  obtain ⟨booted, loaded, table⟩ := stocked_loaded
  have returns : ((runCommands (Volume.firmware id Volume.quiet) 3
      [constant "touch \\fisix_users.db & append \\fisix_users.db more",
        constant "useradd eve secret & whoami"]).run asBob).toOption.any
        (fun outcome => outcome.2.trace.all sparing) = true := by decide +kernel
  generalize ran : (runCommands (Volume.firmware id Volume.quiet) 3 _).run asBob = outcome
    at returns ⊢
  cases outcome with
  | error stop => cases returns
  | ok outcome =>
    obtain ⟨results, after⟩ := outcome
    have working : Working (Volume.started after.firmware.1.contents []) := ⟨rfl, rfl⟩
    obtain ⟨next, _, reloaded, _, _, _, _⟩ := working.init id Volume.quiet
    obtain ⟨events, traced, kept⟩ := session_keeps_others id Volume.quiet 3 _ stocked booted asBob
      after (Volume.started after.firmware.1.contents []) next results ⟨rfl, rfl⟩ loaded rfl
      (by rw [table]; rfl) (by rw [table]; rfl) (by decide) bob_restricted ran ⟨rfl, rfl⟩ rfl
      reloaded
    have same : after.trace = events := traced
    have spares : Spares id events := spares_of_all id (same ▸ returns)
    exact ⟨booted, results, after, next, loaded, rfl, reloaded, kept spares⟩

/-- A user without administrator rights removes the store. The next initialisation falls
back to the built-in administrator, and the user's account is gone. -/
theorem session_loses_accounts :
    ∃ booted results after next,
      (accountsInit (Volume.firmware id Volume.quiet)).run stocked = .ok ((), booted) ∧
      asBob.accounts = { booted.accounts with currentAccount := 1 } ∧
      Restricted asBob.accounts ∧
      (runCommands (Volume.firmware id Volume.quiet) 3 [constant "rm \\fisix_users.db"]).run asBob =
        .ok (results, after) ∧
      NoLogin after.trace ∧
      (accountsInit (Volume.firmware id Volume.quiet)).run
        (Volume.started after.firmware.1.contents []) = .ok ((), next) ∧
      ¬ OthersKept 1 booted.accounts next.accounts := by
  obtain ⟨booted, loaded, table⟩ := stocked_loaded
  have returns : ((runCommands (Volume.firmware id Volume.quiet) 3
      [constant "rm \\fisix_users.db"]).run asBob).toOption.any (fun outcome =>
        decide (NoLogin outcome.2.trace) &&
          decide (outcome.2.firmware.1.contents storeName = none)) = true := by decide +kernel
  generalize ran : (runCommands (Volume.firmware id Volume.quiet) 3 _).run asBob = outcome
    at returns ⊢
  cases outcome with
  | error stop => cases returns
  | ok outcome =>
    obtain ⟨results, after⟩ := outcome
    obtain ⟨noLogin, removed⟩ := (Bool.and_eq_true _ _).mp returns
    have missing : after.firmware.1.contents storeName = none := of_decide_eq_true removed
    have working : Working (Volume.started after.firmware.1.contents []) := ⟨rfl, rfl⟩
    obtain ⟨next, account, reloaded, _, adopted, _, _⟩ := working.init id Volume.quiet
    have nothing : contentOf (Volume.started after.firmware.1.contents []).firmware.1
        (id storeName) = [] := by
      rw [contentOf]
      exact congrArg (Option.getD · []) missing
    rw [nothing, List.take_nil, adoptedBytes_nil] at adopted
    refine ⟨booted, results, after, next, loaded, by rw [table]; rfl, bob_restricted, rfl,
      of_decide_eq_true noLogin, reloaded, ?_⟩
    intro kept
    have count := kept.count
    rw [adopted, table] at count
    have single : 1 = twoUsers.accountCount := count
    exact absurd single (by decide)

end ExistentOS.Terminal
