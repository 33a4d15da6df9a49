import ExistentOS.Terminal.Described
import ExistentOS.Terminal.Login

/-!
# Questions are asked as described

A prompt is answered in the workspace with the line that answers it on the machine, whatever it asks
for: a command, a line for the editor, a name or a password. What the accounts then say is what the
registry says.
-/

namespace ExistentOS.Terminal

open Programs Terminated Runs Accounts Credentials Volume

variable {File τ : Type} [DecidableEq File] {resolve : Text → File} {device : Firmware τ}
  {keys : Volume File × τ → List CHAR16} (keyboard : Keyboard (Volume.firmware resolve device) keys)

/-! ## Lines -/

/-- Behind a prompt, the machine presents the workspace in which the line has been taken. -/
theorem Presents.asked {machine after : Machine (Volume File × τ)} {workspace : Workspace File}
    (presents : Presents resolve keys machine workspace) {fuel limit : Nat} (room : 0 < limit)
    {prompt : Text} {units rest : List CHAR16} {result : Int32 × Memory}
    (ran : (ask (Volume.firmware resolve device) fuel limit prompt).run machine =
      .ok (result, after))
    (asked : Asked limit prompt units machine after result) (left : keys after.firmware = rest) :
    Presents resolve keys after { workspace with
      shown := workspace.shown ++
        [.written (Terminal.asked workspace.echo limit prompt units).flatten]
      typed := rest } := by
  have ignored : Keeps (Ignores Prod.fst)
      (ask (Volume.firmware resolve device) fuel limit prompt) :=
    ignores_ask (fun _ _ => rfl) (fun _ => rfl) room prompt
  have volume : after.firmware.1 = machine.firmware.1 := ignored.related machine result _ ran
  have refines : Refines (resolve storeName) after workspace.registry := by
    refine refines_framed presents.refines asked.frame ?_ ?_
    · rw [volume]
    · rw [volume]
  obtain ⟨events, traced, _, shows, _⟩ := asked.talks
  obtain ⟨firmware, trace, rfl⟩ := asked.frame
  rw [if_pos presents.writes, presents.echo] at shows
  have shown : Screen (workspace.shown ++
      [.written (Terminal.asked workspace.echo limit prompt units).flatten]) (output trace) := by
    rw [show trace = machine.trace ++ events from traced, output_append, ← shows]
    exact .more presents.shown (.written _)
  have files : ∀ file ≠ resolve storeName, firmware.1.contents file = workspace.files file := by
    intro file apart
    rw [show firmware.1 = machine.firmware.1 from volume, presents.files file apart]
  exact { presents with refines, files, shown, typed := left }

include keyboard

/-- A line that is taken in the workspace answers the prompt on the machine. -/
theorem Presents.answers {machine : Machine (Volume File × τ)} {workspace after' : Workspace File}
    (presents : Presents resolve keys machine workspace) {fuel limit : Nat} (room : 0 < limit)
    {prompt : Text} (free : (0 : CHAR16) ∉ prompt) {line : Text}
    (taken : (askLine fuel limit prompt).run workspace = .ok (line, after')) :
    ∃ units result after, line = editAll limit [] units ∧
      (ask (Volume.firmware resolve device) fuel limit prompt).run machine = .ok (result, after) ∧
      Asked limit prompt units machine after result ∧ Presents resolve keys after after' := by
  have entered : (get : Job File _).run workspace = .ok (workspace, workspace) := rfl
  rw [askLine, run_bind_of_ok entered] at taken
  by_cases ready : carriageReturn ∈ workspace.typed ∧
      (workspace.typed.takeWhile (· ≠ carriageReturn)).length < fuel
  · simp only [if_pos ready] at taken
    cases taken
    obtain ⟨units, behind, queued, goes⟩ := List.eq_append_cons_of_mem ready.1
    obtain ⟨front, back⟩ := cut_first goes behind
    have short : units.length < fuel := by
      have fits := ready.2
      rwa [queued, front] at fits
    obtain ⟨result, after, ran, asked, left⟩ := keyboard.answers limit room free presents.reads goes
      (presents.typed.trans queued) short
    have held := presents.asked room ran asked left
    refine ⟨units, result, after, ?_, ran, asked, ?_⟩
    · rw [queued, front]
    · rw [queued, front, back, List.tail_cons]
      exact held
  · simp only [if_neg ready] at taken
    cases taken

/-- What is done with an answer is done with the line. -/
theorem realizes_ask {fuel limit : Nat} (room : 0 < limit) (small : limit ≤ terminalMaxLine)
    {prompt : Text} (free : (0 : CHAR16) ∉ prompt) {α : Type}
    {next : Int32 × Memory → Routine (Volume File × τ) α} {further : Text → Job File α}
    (rest : ∀ line : Text, (0 : CHAR16) ∉ line → line.length < limit →
      ∀ length : Int32, (length = 0 ↔ line = []) →
        Realizes (Presents resolve keys) (next (length, line ++ [0])) (further line)) :
    Realizes (Presents resolve keys)
      (ask (Volume.firmware resolve device) fuel limit prompt >>= next)
      (askLine fuel limit prompt >>= further) := by
  intro machine workspace presents value after' ran
  obtain ⟨line, middle', taken, later⟩ := (run_bind_ok _ _ _ _).mp ran
  obtain ⟨units, result, middle, rfl, asks, asked, held⟩ := presents.answers keyboard room free taken
  have within : LineWithin limit (editAll limit [] units) :=
    editAll_within ⟨room, List.not_mem_nil⟩ units
  have blank := asked.blank_iff room small
  rw [asked.returned] at asks blank
  obtain ⟨after, reached, final⟩ := rest _ within.2 within.1 _ blank middle _ held value after' later
  exact ⟨after, (run_bind_of_ok asks).trans reached, final⟩

/-- A password is taken without an echo, and the echo is on behind it. -/
theorem realizes_askSecret {fuel : Nat} {prompt : String} (asked : prompt ∈ passwordPrompts) {α : Type}
    {next : Memory → Routine (Volume File × τ) α} {further : Text → Job File α}
    (rest : ∀ line : Text, (0 : CHAR16) ∉ line →
      Realizes (Presents resolve keys) (next (line ++ [0])) (further line)) :
    Realizes (Presents resolve keys)
      (askPassword (Volume.firmware resolve device) fuel prompt >>= next)
      (askSecret fuel prompt >>= further) := by
  rw [askPassword_eq asked, askSecret]
  simp only [bind_assoc, pure_bind]
  apply (realizes_setEcho false).bind
  intro _
  apply realizes_ask keyboard (by decide) (by decide) (prompt_free asked)
  intro line free _ _ _
  exact (realizes_setEcho true).bind fun _ => rest line free

/-! ## Answers -/

omit [DecidableEq File] keyboard in
/-- A request to the accounts is answered as the registry answers it, if it leaves the names
alone. -/
theorem realizes_consult {routine : Routine (Volume File × τ) Bool}
    {request : Registry Text Text → Bool × Registry Text Text}
    (answers : ∀ machine workspace, Presents resolve keys machine workspace → ∃ after,
      routine.run machine = .ok ((request workspace.registry).1, after) ∧
      Refines (resolve storeName) after (request workspace.registry).2 ∧
      Consulted (resolve storeName) machine after ∧
      roster after.accounts = roster machine.accounts ∧ Ignores keys machine after) :
    Realizes (Presents resolve keys) routine (consult request : Job File Bool) := by
  apply realizes_view
  intro machine workspace presents value after' ran
  obtain ⟨after, answered, refines, consulted, names, unasked⟩ := answers machine workspace presents
  cases ran
  exact ⟨after, answered, presents.consulted consulted refines (names.trans presents.users) unasked⟩

omit [DecidableEq File] keyboard in
/-- A name and a password are those of a user, or nobody is let in. -/
theorem realizes_accountsLogin {name password : Text} (free : (0 : CHAR16) ∉ name)
    (secretFree : (0 : CHAR16) ∉ password) :
    Realizes (Presents resolve keys)
      (accountsLogin (name ++ [0]) (password ++ [0]) : Routine (Volume File × τ) Bool)
      (consult (·.login name password) : Job File Bool) := by
  apply realizes_consult
  intro machine workspace presents
  obtain ⟨after, answered, refines⟩ := login_refines resolve ⟨_, name, scan_append name [] free⟩
    ⟨_, password, scan_append password [] secretFree⟩ presents.refines
  refine ⟨after, answered, refines, ?_⟩
  have run := run_accountsLogin (name ++ [0]) (password ++ [0]) machine
  rw [show (accountsLogin (name ++ [0]) (password ++ [0])).run machine = _ from answered] at run
  rcases found : search machine.accounts (credentialsMatch (name ++ [0]) (password ++ [0])) with
    _ | _ | index
  · rw [found] at run
    cases run
  · rw [found] at run
    obtain rfl : after = machine := (Prod.mk.inj (Except.ok.inj run)).2
    exact ⟨consulted_withAccounts _ after after.accounts, rfl, rfl⟩
  · rw [found] at run
    obtain rfl := (Prod.mk.inj (Except.ok.inj run)).2
    exact ⟨consulted_withAccounts _ machine _, rfl, rfl⟩

/-- Another password is accepted as the registry accepts it. -/
theorem realizes_accountsChangePassword {old new : Text} (free : (0 : CHAR16) ∉ old)
    (newFree : (0 : CHAR16) ∉ new) :
    Realizes (Presents resolve keys)
      (accountsChangePassword (Volume.firmware resolve device) (old ++ [0]) (new ++ [0]))
      (consult (·.changeSecret Valid old new) : Job File Bool) := by
  apply realizes_consult
  intro machine workspace presents
  obtain ⟨after, answered, refines⟩ := changePassword_refines resolve device
    ⟨_, old, scan_append old [] free⟩ ⟨_, new, scan_append new [] newFree⟩ presents.refines
  have run : ((Request.changePassword (old ++ [0]) (new ++ [0])).perform
      (Volume.firmware resolve device)).run machine = .ok (_, after) := answered
  obtain ⟨consulted, outcome⟩ :=
    consulted_request resolve device _ presents.refines.working run
  have unasked := (keyboard.ignores_request _).related machine _ after run
  refine ⟨after, answered, refines, consulted, ?_, unasked⟩
  rcases outcome with ⟨_, same⟩ | ⟨_, passed, computed⟩
  · rw [same]
  · exact roster_changed passed computed presents.refines.represents.sound.bounded

/-- A user is added as the registry adds one. -/
theorem realizes_accountsAdd {name password : Text} (free : (0 : CHAR16) ∉ name)
    (secretFree : (0 : CHAR16) ∉ password) :
    Realizes (Presents resolve keys)
      (accountsAdd (Volume.firmware resolve device) (name ++ [0]) (password ++ [0]))
      (enrol name password : Job File Bool) := by
  have readable := scan_append name [] free
  intro machine workspace presents value after' ran
  obtain ⟨after, answered, refines⟩ := add_refines resolve device ⟨_, name, readable⟩
    ⟨_, password, scan_append password [] secretFree⟩ presents.refines
  have run : ((Request.add (name ++ [0]) (password ++ [0])).perform
      (Volume.firmware resolve device)).run machine = .ok (_, after) := answered
  obtain ⟨consulted, outcome⟩ :=
    consulted_request resolve device _ presents.refines.working run
  have unasked := (keyboard.ignores_request _).related machine _ after run
  have asks : (consult (·.add adminName fisixMaxUsers Valid Valid name password) : Job File Bool).run
      workspace = .ok (_, _) := rfl
  rw [enrol, run_bind_of_ok asks] at ran
  rcases outcome with ⟨refused, same⟩ | ⟨accepted, passed, computed⟩
  · dsimp only at refused
    rw [refused] at ran answered
    cases ran
    exact ⟨after, answered, presents.consulted consulted refines (same ▸ presents.users) unasked⟩
  · have listed := roster_added passed computed
    rw [presents.users, readable] at listed
    dsimp only at accepted
    rw [accepted] at ran answered
    cases ran
    refine ⟨after, answered, presents.consulted consulted refines ?_ unasked⟩
    rw [listed, List.map_append, List.map_singleton]

/-! ## Commands -/

/-- A round of the login asks for a name and a password. -/
theorem realizes_loginRound (fuel : Nat) (round : Unit) :
    Realizes (Presents resolve keys) (loginRound (Volume.firmware resolve device) fuel round)
      (loginLine fuel round : Job File (Unit ⊕ Bool)) := by
  have nameFree : (0 : CHAR16) ∉ text "login: " := by decide
  have refused : (0 : CHAR16) ∉ text "invalid credentials" := by decide
  rw [loginRound_split, loginLine]
  apply realizes_ask keyboard (by decide) (by decide) nameFree
  intro name free _ length blank
  apply realizes_ite blank
  · intro empty
    exact realizes_pure (Sum.inl ())
  · intro given
    apply realizes_askSecret keyboard (by decide)
    intro password secretFree
    apply (realizes_accountsLogin free secretFree).bind
    intro admitted
    apply realizes_ite Iff.rfl
    · intro known
      exact realizes_pure (Sum.inr true)
    · intro unknown
      exact (realizes_say keyboard refused).bind fun _ => realizes_pure (Sum.inl ())

/-- `terminal_login` lets in whom the registry does, and asks again otherwise. -/
theorem realizes_terminalLogin (fuel : Nat) :
    Realizes (Presents resolve keys) (terminalLogin (Volume.firmware resolve device) fuel)
      (loginJob fuel : Job File Bool) :=
  realizes_iterate (realizes_loginRound keyboard fuel) fuel ()

/-- `passwd` asks for both passwords and lets the registry answer. -/
theorem realizes_changePassword (fuel : Nat) :
    Realizes (Presents resolve keys) (do
        changePassword (Volume.firmware resolve device) fuel
        return false)
      (passwordJob fuel : Job File Bool) := by
  have updated : (0 : CHAR16) ∉ text "password updated" := by decide
  have kept : (0 : CHAR16) ∉ text "password not changed" := by decide
  rw [changePassword_asks, passwordJob]
  simp only [bind_assoc]
  apply realizes_askSecret keyboard (by decide)
  intro old free
  apply realizes_askSecret keyboard (by decide)
  intro new newFree
  apply (realizes_accountsChangePassword keyboard free newFree).bind
  intro accepted
  cases accepted with
  | true => exact realizes_reply keyboard updated
  | false => exact realizes_reply keyboard kept

/-- `useradd` lets the registry answer, and stores the new user where it accepts. -/
theorem realizes_addUser {words : List Text} (free : ∀ word ∈ words, (0 : CHAR16) ∉ word) :
    Realizes (Presents resolve keys) (addUser (Volume.firmware resolve device) words)
      (enrolJob words : Job File Bool) := by
  have created : (0 : CHAR16) ∉ text "user created" := by decide
  have usage : (0 : CHAR16) ∉ text "usage: useradd <name> <password>" := by decide
  rcases words with _ | ⟨command, _ | ⟨name, _ | ⟨password, _ | ⟨word, rest⟩⟩⟩⟩
  · exact realizes_reply keyboard usage
  · exact realizes_reply keyboard usage
  · exact realizes_reply keyboard usage
  · have named : (argument [command, name, password] 1 : Routine (Volume File × τ) Memory) =
        pure (name ++ [0]) := rfl
    have secret : (argument [command, name, password] 2 : Routine (Volume File × τ) Memory) =
        pure (password ++ [0]) := rfl
    have three : [command, name, password].length = 3 := rfl
    rw [addUser, if_pos three, named, pure_bind, secret, pure_bind]
    apply (realizes_accountsAdd keyboard (free name (by simp)) (free password (by simp))).bind
    intro accepted
    apply realizes_ite Iff.rfl
    · intro added
      exact realizes_reply keyboard created
    · intro refused
      exact realizes_reply keyboard usage
  · have many : ¬ (command :: name :: password :: word :: rest).length = 3 := by simp
    rw [addUser, if_neg many]
    exact realizes_reply keyboard usage

/-- A round of the editor replies to a line. -/
theorem realizes_nanoRound (fuel count : Nat) :
    Realizes (Presents resolve keys) (nanoRound (Volume.firmware resolve device) fuel count)
      (nanoLine fuel count : Job File (Nat ⊕ Unit)) := by
  have free : (0 : CHAR16) ∉ text "nano> " := by decide
  intro machine workspace presents value after' ran
  obtain ⟨line, middle', taken, later⟩ := (run_bind_ok _ _ _ _).mp ran
  obtain ⟨units, result, middle, rfl, asks, asked, held⟩ :=
    presents.answers keyboard (by decide) free taken
  cases later
  exact ⟨_, run_nanoRound asks asked, held.displays
    (displays_afterWrites resolve device held.writes _) (keyboard.unspent middle _)⟩

/-- `nano` shows its dialogue and leaves the files as they are. -/
theorem realizes_terminalRunNano (fuel : Nat) :
    Realizes (Presents resolve keys) (terminalRunNano (Volume.firmware resolve device) fuel)
      (nanoJob fuel : Job File Unit) := by
  have entered : (0 : CHAR16) ∉ text "nano-like editor entered" := by decide
  have hint : (0 : CHAR16) ∉ text "type lines, save, or exit" := by decide
  apply (realizes_say keyboard entered).bind
  intro _
  apply (realizes_say keyboard hint).bind
  intro _
  exact realizes_iterate (realizes_nanoRound keyboard fuel) fuel 0

end ExistentOS.Terminal
