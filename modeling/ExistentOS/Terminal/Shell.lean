import ExistentOS.Accounts.AccountFrames
import ExistentOS.Accounts.Updates
import ExistentOS.Terminal.LineBuffer

/-!
# The shell

`terminal_run_batch_file`, `terminal_run_batch` and `terminal_run_shell`, the callers of
the interpreter. Whatever they run, a user who has logged in stays logged in: the user
can change, but the shell never goes back to nobody.
-/

namespace ExistentOS.Terminal

open Programs Terminated Accounts

variable {σ : Type} (fw : Firmware σ)

/-! ## Batch files -/

/-- What ends a line of a batch script. Either unit does, and several in a row end one line. -/
def isLineEnd (unit : CHAR16) : Bool := unit = carriageReturn || unit = lineFeed

/-- `sizeof(line) - 1` in `terminal_run_batch_file`, which counts the bytes of the line
buffer and not its units. -/
def batchLineBound : Nat := 255

/-- The units that one round copies into the line buffer. -/
def batchLine (start : Text) : Text := (start.takeWhile (!isLineEnd ·)).take batchLineBound

/-- What a round leaves for the next one: the text behind the line and behind the line ends that
follow. -/
def batchRest (start : Text) : Text := (start.drop (batchLine start).length).dropWhile isLineEnd

/-- One round of the loop of `terminal_run_batch_file`. A line that leaves no room for its
terminator is copied beyond the line buffer. -/
def batchRound (execute : Memory → Routine σ Bool) (start : Text) : Routine σ (Text ⊕ Unit) := do
  if start = [] then return .inr ()
  else if (batchLine start).length < terminalMaxLine then
    if batchLine start ≠ [] then
      let machine ← get
      if machine.terminal.echoEnabled then
        terminalWrite fw (terminalCurrentPrompt machine.terminal)
      let _ ← execute (batchLine start ++ [0])
    return .inl (batchRest start)
  else throw .overrun

/-- `terminal_run_batch_file`, calling a given interpreter. Every round moves on, so the rounds
never run out. -/
def terminalRunBatchFile (execute : Memory → Routine σ Bool) (batchData : Memory) :
    Routine σ Unit := do
  let data ← orOverrun (scan batchData)
  iterate .outOfFuel (batchRound fw execute) (data.length + 1) data

/-- `autoexec_batch`, the lines that are run at the start. -/
def autoexecBatch : Memory :=
  constant "@echo off\r\nhelp\r\nstatus\r\nver\r\nls\r\nmem\r\nclear\r\n"

/-- `terminal_run_batch`, before anybody is logged in. -/
def terminalRunBatch (fuel : Nat) : Routine σ Unit := do
  say fw "Fisix OS batch terminal ready"
  terminalRunBatchFile fw (terminalExecuteCommand fw fuel) autoexecBatch

/-- A round moves on in the text, so the rounds of a batch file end. -/
theorem batchRest_length (start : Text) (more : start ≠ []) :
    (batchRest start).length < start.length := by
  obtain ⟨unit, rest, rfl⟩ := List.exists_cons_of_ne_nil more
  have skipped : (batchRest (unit :: rest)).length ≤
      (unit :: rest).length - (batchLine (unit :: rest)).length := by
    rw [← List.length_drop]
    exact (List.dropWhile_suffix isLineEnd).length_le
  by_cases ending : isLineEnd unit
  · have empty : batchLine (unit :: rest) = [] := by simp [batchLine, ending]
    have left : batchRest (unit :: rest) = rest.dropWhile isLineEnd := by
      rw [batchRest, empty]
      exact List.dropWhile_cons_of_pos ending
    rw [left]
    exact Nat.lt_succ_of_le (List.dropWhile_suffix isLineEnd).length_le
  · have stored : 0 < (batchLine (unit :: rest)).length := by
      simp [batchLine, ending, batchLineBound]
    have whole : 0 < (unit :: rest).length := Nat.succ_pos rest.length
    omega

/-! ## The interactive shell -/

/-- One round of the loop of `terminal_run_shell`. An empty line is not run. -/
def shellRound (fuel : Nat) (_ : Unit) : Routine σ (Unit ⊕ Unit) := do
  let machine ← get
  terminalWrite fw (terminalCurrentPrompt machine.terminal)
  let line ← terminalReadLine fw fuel terminalMaxLine
  if line.1 = 0 then return .inl ()
  else if ← terminalExecuteCommand fw fuel line.2 then return .inr ()
  else return .inl ()

/-- `terminal_run_shell`. It ends with the first line that answers that it is to end. -/
def terminalRunShell (fuel : Nat) : Routine σ Unit := do
  say fw "Fisix OS shell ready"
  iterate .outOfFuel (shellRound fw fuel) fuel ()

/-! ## Composition of the shell -/

section Composition

variable {fw} {reasons : Stop → Prop} {further : (α : Type) → Routine σ α → Prop}

/-- A round of a batch file only runs commands. -/
theorem composed_batchRound {execute : Memory → Routine σ Bool}
    (inner : ∀ line : Text, Composed fw reasons further (execute (line ++ [0]))) (start : Text)
    (within : (batchLine start).length < terminalMaxLine ∨ reasons .overrun) :
    Composed fw reasons further (batchRound fw execute start) := by
  apply Composed.ite (fun _ => Composed.pure _)
  intro _
  apply Composed.ite
  · intro _
    apply Composed.ite
    · intro _
      apply Composed.view (fun _ _ => rfl)
      intro machine
      have executed : Composed fw reasons further (do
          let _ ← execute (batchLine start ++ [0])
          return (.inl (batchRest start) : Text ⊕ Unit)) :=
        Composed.bind (inner _) (fun _ => Composed.pure _)
      apply Composed.ite
      · intro _
        exact Composed.bind (composed_terminalWrite (Or.inl (terminalCurrentPrompt_ends _)))
          (fun _ => executed)
      · intro _
        exact executed
    · intro _
      exact Composed.pure _
  · intro long
    exact Composed.throw .overrun (Or.inr (within.resolve_left long))

/-- A batch file only runs commands, and prompts in front of them. -/
theorem composed_terminalRunBatchFile (overrun : reasons .overrun) (exhausted : reasons .outOfFuel)
    {execute : Memory → Routine σ Bool}
    (inner : ∀ line : Text, Composed fw reasons further (execute (line ++ [0])))
    (batchData : Memory) :
    Composed fw reasons further (terminalRunBatchFile fw execute batchData) := by
  apply Composed.bind (Composed.orOverrun (Or.inr overrun))
  intro data
  exact Composed.iterate exhausted
    (fun start => composed_batchRound inner start (Or.inr overrun)) _ data

/-- A round of the shell reads a line and runs it. -/
theorem composed_shellRound (exhausted : reasons .outOfFuel) (fuel : Nat)
    (inner : ∀ line : Text, Composed fw reasons further (terminalExecuteCommand fw fuel (line ++ [0])))
    (current : Unit) : Composed fw reasons further (shellRound fw fuel current) := by
  apply Composed.view (fun _ _ => rfl)
  intro machine
  apply Composed.bind (composed_terminalWrite (Or.inl (terminalCurrentPrompt_ends _)))
  intro _
  apply Composed.sequence (composed_terminalReadLine exhausted fuel (by decide))
  intro line read
  apply Composed.ite (fun _ => Composed.pure _)
  intro stored
  rcases terminalReadLine_returns fw (by decide) line read with rfl | ⟨typed, _, rfl⟩
  · exact absurd rfl stored
  · apply Composed.bind (inner typed)
    intro ended
    exact Composed.ite (fun _ => Composed.pure _) (fun _ => Composed.pure _)

end Composition

/-- The batch file at the start keeps a quiet frame that the interpreter keeps. -/
theorem keeps_terminalRunBatch {R : Machine σ → Machine σ → Prop} [QuietFrame fw R] [LineBlind R]
    (kept : ∀ (α : Type) (routine : Routine σ α), CommandStep fw α routine → Keeps R routine)
    (fuel : Nat) : Keeps R (terminalRunBatch fw fuel) := by
  have composed : Composed fw (fun _ => True) (fun _ step => Keeps R step)
      (terminalRunBatch fw fuel) :=
    Composed.bind (composed_say _) (fun _ => composed_terminalRunBatchFile trivial trivial
      (fun line => Composed.further (keeps_terminalExecuteCommand kept fuel (line ++ [0]))) _)
  exact composed.keeps fun _ _ kept => kept

/-- The shell keeps a quiet frame that the interpreter keeps. -/
theorem keeps_terminalRunShell {R : Machine σ → Machine σ → Prop} [QuietFrame fw R] [LineBlind R]
    (kept : ∀ (α : Type) (routine : Routine σ α), CommandStep fw α routine → Keeps R routine)
    (fuel : Nat) : Keeps R (terminalRunShell fw fuel) := by
  have composed : Composed fw (fun _ => True) (fun _ step => Keeps R step)
      (terminalRunShell fw fuel) :=
    Composed.bind (composed_say _) (fun _ => Composed.iterate trivial
      (composed_shellRound trivial fuel
        fun line => Composed.further (keeps_terminalExecuteCommand kept fuel (line ++ [0]))) fuel ())
  exact composed.keeps fun _ _ kept => kept

/-! ## Staying logged in -/

/-- Somebody is logged in. There is no command that logs out. -/
def LoggedIn (machine : Machine σ) : Prop := 0 ≤ machine.accounts.currentAccount

/-- Nobody is logged out. Who is logged in may change. -/
def StaysIn (before after : Machine σ) : Prop := LoggedIn before → LoggedIn after

instance : Std.Refl (StaysIn (σ := σ)) := ⟨fun _ loggedIn => loggedIn⟩

instance : IsTrans (Machine σ) StaysIn := ⟨fun _ _ _ early late loggedIn => late (early loggedIn)⟩

instance : LineBlind (StaysIn (σ := σ)) := ⟨fun _ staysIn => staysIn⟩

instance : TerminalFrame (StaysIn (σ := σ)) := ⟨fun _ => keeps_modify fun _ loggedIn => loggedIn⟩

instance : CallFrame fw (StaysIn (σ := σ)) :=
  callFrame (fun _ _ _ _ loggedIn => loggedIn) (fun _ _ loggedIn => loggedIn) fw

/-- An accepted login leaves somebody logged in. -/
theorem wp_accountsLogin_loggedIn (name password : Memory) (machine : Machine σ) :
    wp (accountsLogin name password)
      (fun accepted after => if accepted then LoggedIn after else after = machine)
      (fun _ => True) machine := by
  rw [accountsLogin, wp_bind, wp_get, wp_bind, wp_orStop]
  refine ⟨fun found _ => ?_, fun _ => trivial⟩
  cases found with
  | none => rfl
  | some index =>
    rw [wp_bind, wp_modifyAccounts, wp_pure]
    exact Int.natCast_nonneg index

/-- A login logs nobody out: a failed one leaves the user of before. -/
theorem staysIn_accountsLogin (name password : Memory) :
    Keeps (StaysIn (σ := σ)) (accountsLogin name password) := by
  rw [keeps_iff_wp]
  intro machine
  apply wp_mono (wp_accountsLogin_loggedIn name password machine) _ (fun _ _ => trivial)
  intro accepted after outcome loggedIn
  cases accepted with
  | true => exact outcome
  | false => exact (show after = machine from outcome) ▸ loggedIn

/-- An update logs nobody out, whether its save fails or not. -/
theorem staysIn_perform (request : Request) : Keeps StaysIn (request.perform fw) := by
  constructor
  intro machine result after ran loggedIn
  rw [Request.run_perform] at ran
  rcases passed : request.guard machine.accounts with _ | _ | _
  · simp only [passed] at ran
    cases ran
  · simp only [passed] at ran
    cases ran
    exact loggedIn
  · simp only [passed] at ran
    cases computed : request.table machine.accounts with
    | none =>
      rw [computed] at ran
      cases ran
    | some storage =>
      rw [computed] at ran
      have same : after.accounts = storage :=
        (sameAccounts_save fw).related _ result after ran
      rw [LoggedIn, same, request.table_current computed]
      exact loggedIn

/-- A record logs nobody out. -/
theorem staysIn_record (name : String) (argv : List Text) :
    Keeps (StaysIn (σ := σ)) (record name argv) :=
  keeps_bind keeps_get (fun _ => keeps_modify fun _ loggedIn => loggedIn)

/-- No command logs anybody out. -/
theorem staysIn_commandStep (α : Type) (routine : Routine σ α) (named : CommandStep fw α routine) :
    Keeps StaysIn routine :=
  keeps_commandStep staysIn_record (fun name password => staysIn_perform fw (.add name password))
    (fun old new => staysIn_perform fw (.changePassword old new))
    (keeps_loginCommand staysIn_record staysIn_accountsLogin) α routine named

/-- A session of the shell that somebody has logged in to ends with somebody logged in. -/
theorem terminalRunShell_loggedIn (fuel : Nat) : Keeps StaysIn (terminalRunShell fw fuel) :=
  keeps_terminalRunShell fw (staysIn_commandStep fw) fuel

end ExistentOS.Terminal
