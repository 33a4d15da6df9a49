import ExistentOS.Accounts.AccountFrames
import ExistentOS.Accounts.Authorization
import ExistentOS.Terminal.LineBuffer
import ExistentOS.Terminal.LineEditing

/-!
# Authorization of the shell

Which changes a user without administrator rights can make to the account table in
memory. Only the account operations change it, and they look at the user logged in;
the rest of the interpreter does not touch it. Who is logged in changes by a login
only.
-/

namespace ExistentOS.Terminal

open Programs Terminated Accounts

variable {σ : Type}

/-- No login command was dispatched. A login may change who is logged in, and with it whose
password is the own one. -/
def NoLogin (events : List Event) : Prop :=
  ∀ arguments, Event.command (text "login") arguments ∉ events

/-- The event is a dispatched login, whether it was successful or not. -/
def isLogin : Event → Bool
  | .command name _ => name = text "login"
  | _ => false

/-- Logins are recognized event by event, so the condition can be split along a trace. -/
theorem noLogin_iff (events : List Event) :
    NoLogin events ↔ ∀ event ∈ events, isLogin event = false := by
  constructor
  · intro noLogin event member
    cases event with
    | command name arguments =>
      have other : name ≠ text "login" := fun same => noLogin arguments (same ▸ member)
      simp [isLogin, other]
    | _ => rfl
  · intro each arguments member
    have recognized := each _ member
    simp [isLogin] at recognized

instance (events : List Event) : Decidable (NoLogin events) :=
  decidable_of_iff _ (noLogin_iff events).symm

instance : Hereditary NoLogin :=
  ⟨fun within noLogin arguments member => noLogin arguments (within member)⟩

/-- What a step of a restricted user may do to the account table. -/
def Preserving (before after : Machine σ) : Prop :=
  Restricted before.accounts → OwnPasswordOnly before.accounts after.accounts

instance : Std.Refl (Preserving (σ := σ)) :=
  ⟨fun machine _ => OwnPasswordOnly.refl machine.accounts⟩

instance : IsTrans (Machine σ) Preserving := ⟨fun _ _ _ early late restricted =>
  (early restricted).trans (late ((early restricted).restricted restricted))⟩

/-- The relation of the interpreter: without a login, a restricted user changes nothing but
the own password. -/
abbrev Authorized : Machine σ → Machine σ → Prop := Provided NoLogin Preserving

/-- An unchanged account table is authorized, whoever is logged in. -/
theorem authorized_same {before after : Machine σ} (events : List Event)
    (traced : after.trace = before.trace ++ events) (same : after.accounts = before.accounts) :
    Authorized before after :=
  ⟨events, traced, fun _ _ => same ▸ OwnPasswordOnly.refl before.accounts⟩

instance : LineBlind (Preserving (σ := σ)) := ⟨fun _ preserving => preserving⟩

instance : TerminalFrame (Authorized (σ := σ)) :=
  ⟨fun _ => keeps_modify fun machine =>
    authorized_same [] (List.append_nil machine.trace).symm rfl⟩

instance (fw : Firmware σ) : CallFrame fw (Authorized (σ := σ)) := by
  apply callFrame
  · intro machine firmware event _
    exact authorized_same [event] rfl rfl
  · intro machine storage
    exact authorized_same [] (List.append_nil machine.trace).symm rfl

/-! ## The account operations of a restricted user -/

/-- A restricted user's request for a new account is refused without any effect. -/
theorem run_accountsAdd_restricted (fw : Firmware σ) (name password : Memory) {machine : Machine σ}
    (restricted : Restricted machine.accounts) :
    (accountsAdd fw name password).run machine = .ok (false, machine) := by
  have refused : addGuard machine.accounts name password = some false := by
    simp [addGuard, restricted.ordinary]
  have entered : (get : Routine σ (Machine σ)).run machine = .ok (machine, machine) := rfl
  rw [accountsAdd, run_bind_of_ok entered, refused]
  rfl

/-- A restricted user cannot add accounts: the test refuses before anything is changed. -/
theorem authorized_accountsAdd (fw : Firmware σ) (name password : Memory) :
    Keeps Authorized (accountsAdd fw name password) := by
  apply keeps_provided (traced_accountsAdd fw name password)
  intro machine result after _ ran _ _ restricted
  rw [run_accountsAdd_restricted fw name password restricted] at ran
  cases ran
  exact OwnPasswordOnly.refl machine.accounts

/-- A restricted user changes no other password, as only the current account is written to. -/
theorem authorized_accountsChangePassword (fw : Firmware σ) (old new : Memory) :
    Keeps Authorized (accountsChangePassword fw old new) := by
  apply keeps_provided (traced_accountsChangePassword fw old new)
  intro machine result after _ ran _ _ restricted
  have own : wp (accountsChangePassword fw old new)
      (fun _ after => OwnPasswordOnly machine.accounts after.accounts) (fun _ => True) machine := by
    rw [accountsChangePassword, wp_bind, wp_get, wp_bind, wp_orStop]
    refine ⟨fun admitted _ => ?_, fun _ => trivial⟩
    rw [wp_ite, wp_bind, wp_orStop, wp_pure]
    refine ⟨fun _ => ⟨fun updated computed => ?_, fun _ => trivial⟩,
      fun _ => OwnPasswordOnly.refl machine.accounts⟩
    rw [wp_bind, wp_modifyAccounts]
    apply accountsSave_same fw
    intro _ after same
    rw [same]
    exact changed_own computed restricted.loggedIn
  exact ((wp_iff _ _ _ _).mp own).1 result after ran

/-- Recording a command is authorized, as it changes no account. -/
theorem authorized_record (name : String) (argv : List Text) :
    Keeps (Authorized (σ := σ)) (record name argv) := by
  apply keeps_bind keeps_get
  intro machine
  exact keeps_modify fun before => authorized_same [_] rfl rfl

/-- A login is authorized because it is on record. -/
theorem authorized_login (fw : Firmware σ) (fuel : Nat) (argv : List Text) :
    Keeps Authorized (do record "login" argv; let _ ← terminalLogin fw fuel; return false) := by
  have storage : ∀ (α : Type) (routine : Routine σ α), StorageStep fw α routine →
      CommandEffect fw α routine := fun _ _ named => CommandEffect.storage named
  have composed : Composed fw (fun _ => True) (CommandEffect fw)
      (do let _ ← terminalLogin fw fuel; return false) :=
    Composed.bind (composed_terminalLogin trivial fuel
      fun _ _ _ => composed_accountsLogin storage (Or.inr trivial))
      (fun _ => Composed.pure false)
  apply keeps_recorded (emits_composed composed)
  intro machine result after events _ _ noLogin
  exact absurd List.mem_cons_self (noLogin (wordsOf machine.terminal argv))

/-- All commands that do more are authorized. The case of `login` is the one that the condition
excludes. -/
theorem authorized_commandStep (fw : Firmware σ) (α : Type) (routine : Routine σ α)
    (named : CommandStep fw α routine) : Keeps Authorized routine :=
  keeps_commandStep authorized_record (authorized_accountsAdd fw)
    (authorized_accountsChangePassword fw) (authorized_login fw) α routine named

/-! ## Sessions -/

/-- A sequence of command lines and what each of them reports. -/
def runCommands (fw : Firmware σ) (fuel : Nat) (lines : List Memory) : Routine σ (List Bool) :=
  lines.mapM (terminalExecuteCommand fw fuel)

/-- Authorization of a shell session. Whatever a restricted user enters, and whatever the
firmware answers, only that user's own password may change, as long as no login command
is dispatched. -/
theorem commands_authorized (fw : Firmware σ) (fuel : Nat) (lines : List Memory)
    (machine after : Machine σ) (results : List Bool)
    (restricted : Restricted machine.accounts)
    (ran : (runCommands fw fuel lines).run machine = .ok (results, after)) :
    ∃ events, after.trace = machine.trace ++ events ∧
      (NoLogin events → OwnPasswordOnly machine.accounts after.accounts) := by
  have kept : Keeps Authorized (runCommands fw fuel lines) :=
    keeps_mapM lines _ fun command _ =>
      keeps_terminalExecuteCommand (authorized_commandStep fw) fuel command
  obtain ⟨events, traced, preserving⟩ := kept.related machine results after ran
  exact ⟨events, traced, fun noLogin => preserving noLogin restricted⟩

/-- A machine whose second user, without administrator rights, is logged in, with the answers to a
change of the password typed ahead. -/
def guest : Machine (List CHAR16) :=
  (Machine.entered (text "secret\rhidden\r")).withAccounts { twoUsers with currentAccount := 1 }

/-- The lines of that user: a refused new account, a change of the password, a file to remove. -/
def guestLines : List Memory := [constant "useradd eve secret & passwd", constant "rm x"]

/-- The own password changes, and nothing else in the table. -/
theorem commands_authorized_guest :
    ∃ after, (runCommands keyboard 20 guestLines).run guest = .ok ([false, false], after) ∧
      after.accounts ≠ guest.accounts ∧ OwnPasswordOnly guest.accounts after.accounts := by
  have restricted : Restricted guest.accounts := ⟨by decide, by decide⟩
  have ran : (runCommands keyboard 20 guestLines).run guest =
      .ok ([false, false], finalState (runCommands keyboard 20 guestLines) guest) :=
    run_finalState (by decide +kernel)
  have noLogin : NoLogin (finalState (runCommands keyboard 20 guestLines) guest).trace := by
    decide +kernel
  obtain ⟨events, traced, authorized⟩ :=
    commands_authorized keyboard 20 guestLines guest _ _ restricted ran
  have all : events = (finalState (runCommands keyboard 20 guestLines) guest).trace := traced.symm
  exact ⟨_, ran, by decide +kernel, authorized (all ▸ noLogin)⟩

end ExistentOS.Terminal
