import ExistentOS.Boot.Handoff
import ExistentOS.Listings
import ExistentOS.Terminal.Exits
import ExistentOS.Terminal.Login

/-!
# The whole loader

`efi_main`, from the entry of the loader to the jump into the kernel: set up the storage, run the
commands of the start, log somebody in, run the shell until it is left, hand over.
-/

namespace ExistentOS.Boot

open Programs Terminated Terminal Accounts Eosfs

variable {σ : Type}

/-- `boot_message`, the first line on the screen. -/
def bootMessage : Memory := constant "Fisix OS EFI boot\r\n"

/-- The first lines of `efi_main`. Without a system table there are no boot services either. -/
def setGlobals (image : Handle) (table : Option SystemTable) : Routine σ Unit :=
  modify fun machine => { machine with
    gImageHandle := image
    gST := table
    gBS := table.bind (·.bootServices) }

/-- `efi_main` up to the login. Everything here runs without anybody logged in. -/
def efiStart (fw : Firmware σ) (fuel : Nat) (image : Handle) (table : Option SystemTable) :
    Routine σ Unit := do
  setGlobals image table
  eosfsInit
  accountsInit fw
  terminalWrite fw bootMessage
  terminalRunBatch fw fuel

/-- `efi_main`. The kernel is entered only if both steps of the hand-off have reported success. -/
def efiMain (fw : Firmware σ) (fuel : Nat) (image : Handle) (table : Option SystemTable) :
    Routine σ EfiStatus := do
  efiStart fw fuel image table
  let _ ← terminalLogin fw fuel
  terminalRunShell fw fuel
  handoff fw fuel

/-! ## Jumps -/

/-- The event is a jump into the kernel. -/
def isJump : Event → Bool
  | .enterKernel _ _ => true
  | _ => false

/-- No jump is taken between the two machines. -/
abbrev Stays : Machine σ → Machine σ → Prop := Emits fun event => isJump event = false

/-- Calls are no jumps, so a run of calls stays in the loader. -/
theorem call_stays {event : Event} (isCall : event.isCall = true) : isJump event = false := by
  cases event <;> simp_all [isJump, Event.isCall]

/-- The console is called. -/
theorem console_isCall {event : Event} (console : isConsole event = true) : event.isCall = true := by
  cases event <;> simp_all [isConsole, Event.isCall]

section Stays

variable {fw : Firmware σ}

instance : StorageFrame fw (Stays (σ := σ)) := storageFrame_emits (fun _ => call_stays) fw

/-- Recording a command leaves the boot services where they are. -/
theorem stays_record (name : String) (argv : List Text) :
    Keeps (Stays (σ := σ)) (record name argv) :=
  keeps_bind keeps_get (fun _ => keeps_modify fun _ => ⟨[_], rfl, by simp [isJump]⟩)

/-- No command jumps, whatever it is and whatever it is given. -/
theorem stays_commandStep (α : Type) (routine : Routine σ α) (named : CommandStep fw α routine) :
    Keeps Stays routine := by
  have storage : ∀ (α : Type) (step : Routine σ α), StorageStep fw α step → StorageStep fw α step :=
    fun _ _ named => named
  refine keeps_commandStep stays_record ?_ ?_ (keeps_loginCommand stays_record ?_) α routine named
  · intro name password
    exact (composed_accountsAdd storage (Or.inr trivial)).keepsStorage
  · intro old new
    exact (composed_accountsChangePassword storage (Or.inr trivial)).keepsStorage
  · intro name password
    exact (composed_accountsLogin storage (Or.inr trivial)).keepsStorage

/-- Nothing jumps up to the login. So the kernel is not entered before somebody is let in. -/
theorem stays_efiStart (fuel : Nat) (image : Handle) (table : Option SystemTable) :
    Keeps (Stays (σ := σ)) (efiStart fw fuel image table) := by
  have set : Keeps (Stays (σ := σ)) (setGlobals image table) := keeps_modify fun _ => emits_same rfl
  apply keeps_bind set
  intro _
  apply keeps_bind (keeps_bind keeps_get fun _ => keeps_bind (keeps_orStop _ _) fun _ =>
    StorageFrame.modifyEosfs fw _)
  intro _
  apply keeps_bind (composed_accountsInit (fun _ _ named => named) trivial).keepsStorage
  intro _
  apply keeps_bind (composed_terminalWrite (Or.inl (constant_ends _))).keepsQuiet
  intro _
  exact keeps_terminalRunBatch fw stays_commandStep fuel

end Stays

/-! ## Leaving the shell -/

section Shell

variable {fw : Firmware σ}

/-- A line that ends the shell has dispatched `exit` or `shutdown`. -/
theorem exits_of_answer {fuel : Nat} {line : Text} (free : (0 : CHAR16) ∉ line)
    (fits : line.length ≤ terminalMaxLine - 1) {machine after : Machine σ}
    (ran : (terminalExecuteCommand fw fuel (line ++ [0])).run machine = .ok (true, after)) :
    ∃ events, after.trace = machine.trace ++ events ∧ Exits events := by
  obtain ⟨contents, reached, same, rfl⟩ := alike_run (coupled_interpret fuel _ _) ran
  obtain ⟨events, traced, _⟩ := (emits_interpret fuel (line ++ [0])).related _ true reached same
  obtain ⟨answered, dispatches, _⟩ :=
    exits_line fuel (scan_append line [] free) fits same traced
  refine ⟨events, traced, dispatches ⟨_, List.getLast_mem (segments_nonempty line), ?_⟩⟩
  exact answered.mp rfl

/-- What the shell has done between two machines, and whether it has been left. -/
def ShellRuns (start : Machine σ) (left : Bool) (machine : Machine σ) : Prop :=
  ∃ events, machine.trace = start.trace ++ events ∧ (left = true → Exits events)

/-- Steps that leave the trace to grow keep that the shell has run. -/
theorem ShellRuns.wp {α : Type} {routine : Routine σ α} (kept : Keeps Stays routine)
    {start machine : Machine σ} (runs : ShellRuns start false machine) :
    wp routine (fun _ after => ShellRuns start false after) (fun _ => True) machine := by
  obtain ⟨events, traced, _⟩ := runs
  refine wp_mono ((keeps_iff_wp _).mp kept machine) ?_ (fun _ holds => holds)
  rintro _ after ⟨more, extended, _⟩
  exact ⟨events ++ more, by rw [extended, traced, List.append_assoc], by simp⟩

/-- A line that is read leaves the shell only by `exit` or `shutdown`. -/
theorem wp_shellLine (fuel : Nat) {start machine : Machine σ} {line : Text}
    (within : LineWithin terminalMaxLine line) (runs : ShellRuns start false machine) :
    wp (terminalExecuteCommand fw fuel (line ++ [0]))
      (fun answer after => ShellRuns start answer after) (fun _ => True) machine := by
  rw [wp_iff]
  refine ⟨fun answer after ran => ?_, fun _ _ => trivial⟩
  cases answer with
  | false =>
    have kept : Keeps Stays (terminalExecuteCommand fw fuel (line ++ [0])) :=
      keeps_terminalExecuteCommand stays_commandStep fuel (line ++ [0])
    exact wp_returns (Q := fun _ after => ShellRuns start false after) (runs.wp kept) ran
  | true =>
    obtain ⟨events, traced, _⟩ := runs
    obtain ⟨more, extended, exits⟩ := exits_of_answer within.2 (Nat.le_sub_one_of_lt within.1) ran
    refine ⟨events ++ more, by rw [extended, traced, List.append_assoc], fun _ => ?_⟩
    exact (exits_append events more).mpr (Or.inr exits)

/-- The shell is left by `exit` or `shutdown` only. -/
theorem wp_terminalRunShell (fuel : Nat) (machine : Machine σ) :
    wp (terminalRunShell fw fuel) (fun _ after => ShellRuns machine true after) (fun _ => True)
      machine := by
  have start : ShellRuns machine false machine := ⟨[], by simp, by simp⟩
  have greeted : Keeps Stays (say fw "Fisix OS shell ready") := (composed_say _).keepsQuiet
  rw [terminalRunShell, wp_bind]
  refine wp_mono (start.wp greeted) ?_ (fun _ holds => holds)
  intro _ entered runs
  apply wp_iterate .outOfFuel (shellRound fw fuel) (fun _ => ShellRuns machine false)
    (fun _ => ShellRuns machine true) _ trivial _ fuel () entered runs
  intro _ state runs
  have prompted : Keeps Stays (terminalWrite fw (terminalCurrentPrompt state.terminal)) :=
    (composed_terminalWrite (Or.inl (terminalCurrentPrompt_ends _))).keepsQuiet
  have reads : Keeps Stays (terminalReadLine fw fuel terminalMaxLine) :=
    (composed_terminalReadLine trivial fuel (by decide)).keepsQuiet
  rw [shellRound, wp_bind, wp_get, wp_bind]
  refine wp_mono (runs.wp prompted) ?_ (fun _ holds => holds)
  intro _ asked runs
  rw [wp_bind, wp_iff]
  refine ⟨fun typed read ran => ?_, fun _ _ => trivial⟩
  have runs := wp_returns (Q := fun _ after => ShellRuns machine false after) (runs.wp reads) ran
  rw [wp_ite, wp_pure]
  refine ⟨fun _ => runs, fun accepted => ?_⟩
  rcases terminalReadLine_returns fw (by decide) typed ⟨asked, read, ran⟩ with
    rfl | ⟨line, within, rfl⟩
  · exact absurd rfl accepted
  · rw [wp_bind]
    refine wp_mono (wp_shellLine fuel within runs) ?_ (fun _ holds => holds)
    intro answer after runs
    cases answer with
    | false => exact runs
    | true => exact runs

end Shell

/-! ## The hand-off -/

/-- How the hand-off ends: with a jump, or with a report of failure. -/
theorem wp_handoff_ends (fw : Firmware σ) (fuel : Nat) (machine : Machine σ) :
    wp (handoff fw fuel) (fun status after => ∃ calls, (∀ event ∈ calls, event.isCall = true) ∧
        ((status = efiSuccess ∧ ∃ info, after.trace =
            machine.trace ++ (calls ++ [.enterKernel kernelLoadAddress info])) ∨
          (status = efiLoadError ∧ after.trace = machine.trace ++ calls)))
      (fun _ => True) machine := by
  have failed : ∀ {state : Machine σ} {calls : List Event},
      state.trace = machine.trace ++ calls → (∀ event ∈ calls, event.isCall = true) →
      wp (failedToStart fw) (fun status after => ∃ calls, (∀ event ∈ calls, event.isCall = true) ∧
        ((status = efiSuccess ∧ ∃ info, after.trace =
            machine.trace ++ (calls ++ [.enterKernel kernelLoadAddress info])) ∨
          (status = efiLoadError ∧ after.trace = machine.trace ++ calls))) (fun _ => True) state := by
    intro state calls traced each
    rw [failedToStart, wp_bind]
    have frame : StorageFrame fw (Emits (σ := σ) fun event => event.isCall = true) :=
      storageFrame_emits (fun _ isCall => isCall) fw
    have reports : Keeps (Emits fun event => event.isCall = true)
        (Terminal.terminalWriteLine fw (constant "failed to start kernel")) :=
      (composed_terminalWriteLine (Or.inl (constant_ends _))).keepsQuiet
    refine wp_mono ((keeps_iff_wp _).mp reports state) ?_ (fun _ holds => holds)
    rintro _ after ⟨more, extended, calling⟩
    refine ⟨calls ++ more, ?_, Or.inr ⟨rfl, by rw [extended, traced, List.append_assoc]⟩⟩
    simpa [or_imp, forall_and] using ⟨each, calling⟩
  rw [handoff, wp_bind]
  apply wp_efiLoadKernel
  intro status loaded loading ended _ _
  have calls := loading_calls ended.loading
  rw [wp_ite]
  refine ⟨fun _ => ?_, fun _ => failed ended.trace calls⟩
  rw [wp_bind]
  apply wp_leave
  · intro _ _
    trivial
  · intro _ result after leaving _ left _
    have traced : after.trace = machine.trace ++ (loading ++ leaving) := by
      rw [left.trace, ended.trace, List.append_assoc]
    have both : ∀ event ∈ loading ++ leaving, event.isCall = true := by
      simpa [or_imp, forall_and] using ⟨calls, left.calls⟩
    rw [wp_ite]
    refine ⟨fun _ => ?_, fun _ => failed traced both⟩
    rw [wp_bind, wp_note, wp_pure]
    refine ⟨loading ++ leaving, both, Or.inl ⟨rfl, result.2, ?_⟩⟩
    rw [traced]
    simp only [List.append_assoc]

/-! ## The way into the kernel -/

/-- What has come before a jump. The commands of the start have been run; behind them, the lines
typed at the login end with the name and the password of an account; behind these, the shell has
been left by `exit` or `shutdown`; and behind that, if the answers of the firmware are faithful,
the kernel has been read and an exit accepted. -/
def Entitled (fw : Firmware σ) (fuel : Nat) (image : Handle) (table : Option SystemTable)
    (machine : Machine σ) (before : List Event) : Prop :=
  ∃ (ready inside ended : Machine σ) (starting logging session leaving : List Event)
    (lines : List (List CHAR16)) (index : Nat),
    before = starting ++ logging ++ session ++ leaving ∧
    (efiStart fw fuel image table).run machine = .ok ((), ready) ∧
    ready.trace = machine.trace ++ starting ∧
    LoginTaken ready inside lines index ∧ inside.trace = ready.trace ++ logging ∧
    (terminalRunShell fw fuel).run inside = .ok ((), ended) ∧
    ended.trace = inside.trace ++ session ∧ Exits session ∧ LoggedIn ended ∧
    (Faithful fw fuel ended →
      ∃ loading exiting, leaving = loading ++ exiting ∧ KernelRead loading ∧ Accepted exiting)

/-- The only event of a kind in a list is its last one. -/
theorem only_last {events before behind : List Event} {last event : Event}
    (none : ∀ other ∈ events, isJump other = false) (jump : isJump event = true)
    (same : events ++ [last] = before ++ event :: behind) :
    before = events ∧ event = last ∧ behind = [] := by
  rcases List.eq_nil_or_concat behind with rfl | ⟨later, final, rfl⟩
  · obtain ⟨front, back⟩ := List.append_inj' same rfl
    exact ⟨front.symm, (List.cons.inj back).1.symm, rfl⟩
  · have parts : events ++ [last] = (before ++ event :: later) ++ [final] := by simp [same]
    have front := (List.append_inj' parts rfl).1
    have member : event ∈ events := by simp [front]
    rw [none event member] at jump
    cases jump

/-- Every boot is guarded. Whatever the firmware answers, `efi_main` jumps only to the load
address of the kernel, only as its last step and only behind a login with the credentials of an
account and an exit from the shell; and it returns a success exactly if it has jumped. -/
theorem efiMain_guarded (fw : Firmware σ) (fuel : Nat) (image : Handle) (table : Option SystemTable)
    {machine after : Machine σ} {status : EfiStatus} {events : List Event}
    (ran : (efiMain fw fuel image table).run machine = .ok (status, after))
    (traced : after.trace = machine.trace ++ events) :
    (status = efiSuccess ↔ ∃ event ∈ events, isJump event = true) ∧
      ∀ before address info behind, events = before ++ .enterKernel address info :: behind →
        address = kernelLoadAddress ∧ behind = [] ∧ Entitled fw fuel image table machine before := by
  obtain ⟨_, ready, starts, ran⟩ := (run_bind_ok _ _ _ _).mp ran
  obtain ⟨value, inside, logs, ran⟩ := (run_bind_ok _ _ _ _).mp ran
  obtain ⟨_, ended, shells, hands⟩ := (run_bind_ok _ _ _ _).mp ran
  obtain ⟨starting, toReady, quietStart⟩ := (stays_efiStart fuel image table).related _ _ _ starts
  obtain ⟨_, _, lines, index, taken⟩ := terminalLogin_taken logs
  obtain ⟨logging, toInside, _, _, console⟩ := taken.logsIn.1
  obtain ⟨session, toEnded, exits⟩ :=
    wp_returns (Q := fun _ after => ShellRuns inside true after) (wp_terminalRunShell fuel inside)
      shells
  have quietShell : Keeps Stays (terminalRunShell fw fuel) :=
    keeps_terminalRunShell fw stays_commandStep fuel
  obtain ⟨also, extended, quietSession⟩ := quietShell.related _ _ _ shells
  obtain rfl : session = also := List.append_cancel_left (toEnded.symm.trans extended)
  have inside_loggedIn : LoggedIn inside := by
    obtain ⟨_, _, rfl⟩ := taken.logsIn.2
    exact Int.natCast_nonneg index
  have loggedIn : LoggedIn ended :=
    (terminalRunShell_loggedIn fw fuel).related _ _ _ shells inside_loggedIn
  obtain ⟨calls, each, outcome⟩ := wp_returns (Q := fun status after => _)
    (wp_handoff_ends fw fuel ended) hands
  obtain ⟨handing, toAfter, safe⟩ := wp_returns (Q := fun _ after => _)
    (wp_handoff fw fuel ended) hands
  have quiet : ∀ event ∈ starting ++ logging ++ session ++ calls, isJump event = false := by
    have talking : ∀ event ∈ logging, isJump event = false := fun event member =>
      call_stays (console_isCall (console event member))
    have calling : ∀ event ∈ calls, isJump event = false := fun event member =>
      call_stays (each event member)
    simpa [or_imp, forall_and] using ⟨quietStart, talking, quietSession, calling⟩
  rcases outcome with ⟨rfl, info, jumped⟩ | ⟨rfl, reported⟩
  · obtain rfl : events = starting ++ logging ++ session ++ calls ++
        [.enterKernel kernelLoadAddress info] := by
      apply List.append_cancel_left (traced.symm.trans _)
      rw [jumped, toEnded, toInside, toReady]
      simp only [List.append_assoc]
    refine ⟨⟨fun _ => ⟨.enterKernel kernelLoadAddress info, by simp, rfl⟩, fun _ => rfl⟩, ?_⟩
    intro before address other behind split
    obtain ⟨rfl, same, rfl⟩ := only_last quiet rfl split
    injection same with address _
    refine ⟨address, rfl, ready, inside, ended, starting, logging, session, calls, lines, index, rfl,
      starts, toReady, taken, toInside, shells, toEnded, exits rfl, loggedIn, fun faithful => ?_⟩
    obtain rfl : handing = calls ++ [.enterKernel kernelLoadAddress info] :=
      List.append_cancel_left (toAfter.symm.trans jumped)
    exact (safe.mpr faithful calls kernelLoadAddress info [] rfl).2
  · obtain rfl : events = starting ++ logging ++ session ++ calls := by
      apply List.append_cancel_left (traced.symm.trans _)
      rw [reported, toEnded, toInside, toReady]
      simp only [List.append_assoc]
    have none : ¬ ∃ event ∈ starting ++ logging ++ session ++ calls, isJump event = true := by
      rintro ⟨event, member, jump⟩
      rw [quiet event member] at jump
      cases jump
    refine ⟨⟨fun same => absurd same (by decide), fun some => absurd some none⟩, ?_⟩
    intro before address info behind split
    refine absurd ⟨.enterKernel address info, ?_, rfl⟩ none
    rw [split]
    exact List.mem_append_right before List.mem_cons_self

/-- A firmware with a keyboard, an empty directory and a kernel of two bytes. -/
def bootable : Firmware (List CHAR16) :=
  { keyboard with
    locateProtocol := fun state => ((efiSuccess, 1), state)
    openVolume := fun _ state => ((efiSuccess, 1), state)
    openFile := fun _ path _ _ state =>
      if path = kernelName then ((efiSuccess, 2), state) else ((efiNotFound, 0), state)
    read := fun file _ state =>
      if file = 2 then (⟨efiSuccess, 2, [0xEB, 0xFE]⟩, state) else (⟨efiSuccess, 0, []⟩, state)
    allocatePages := fun _ _ _ address state => ((efiSuccess, address), state)
    getMemoryMap := fun _ state => (⟨efiSuccess, 0, [], 7, 40, 1⟩, state)
    exitBootServices := fun _ _ state => (efiSuccess, state) }

/-- The administrator logs in, leaves the shell and enters the kernel. -/
theorem efiMain_guarded_administrator :
    ∃ after, (efiMain bootable 40 1 (some ⟨true, true, some ⟨true, true, true, true⟩⟩)).run
        (typedAt "admin\rfisix\rexit\r") = .ok (efiSuccess, after) ∧
      ∃ event ∈ after.trace, isJump event = true := by
  have ran : (efiMain bootable 40 1 (some ⟨true, true, some ⟨true, true, true, true⟩⟩)).run
      (typedAt "admin\rfisix\rexit\r") = .ok (efiSuccess, _) := run_finalState (by decide +kernel)
  exact ⟨_, ran, (efiMain_guarded bootable 40 1 _ ran (List.nil_append _).symm).1.mp rfl⟩

end ExistentOS.Boot
