import ExistentOS.Terminal.Dispatch
import ExistentOS.Terminal.LineEditing
import ExistentOS.Terminal.Shell

/-!
# Leaving the shell

The shell ends when the interpreter answers so. The answer is that of the last segment of
the line: what an earlier segment answers is dropped, and so is what the lines of a script
answer. An `exit` there is dispatched and the shell goes on.
-/

namespace ExistentOS.Terminal

open Programs Terminated Accounts

variable {σ : Type} {fw : Firmware σ}

/-- A line without ampersands that runs `exit` or `shutdown`, by its first word. -/
def IsExit (line : Text) : Prop := ∃ name ∈ exitNames, commandOf line = some (text name)

/-- A line without ampersands that runs a script, by its first word. -/
def IsSource (line : Text) : Prop := ∃ name ∈ sourceNames, commandOf line = some (text name)

instance (line : Text) : Decidable (IsExit line) :=
  inferInstanceAs (Decidable (∃ name ∈ exitNames, commandOf line = some (text name)))

instance (line : Text) : Decidable (IsSource line) :=
  inferInstanceAs (Decidable (∃ name ∈ sourceNames, commandOf line = some (text name)))

/-- The event records that `exit` or `shutdown` was dispatched, with any words behind it. -/
def ExitEvent (event : Event) : Prop :=
  ∃ name ∈ exitNames, ∃ words, event = .command (text name) words

/-- Among the events, `exit` or `shutdown` was dispatched. Whether the shell ends is another
question. -/
def Exits (events : List Event) : Prop := ∃ event ∈ events, ExitEvent event

/-- An exit is dispatched in one of two runs, or in neither. -/
theorem exits_append (early late : List Event) :
    Exits (early ++ late) ↔ Exits early ∨ Exits late := by
  simp only [Exits, List.mem_append, or_and_right, exists_or]

/-- Calls are no dispatches, so reading a line dispatches no exit. -/
theorem calls_noExit {events : List Event} (calls : ∀ event ∈ events, event.isCall = true) :
    ¬ Exits events := by
  rintro ⟨event, member, _, _, _, rfl⟩
  cases calls _ member

/-! ## Traces -/

/-- The interpreter over tokens of its own only extends the trace. -/
theorem emits_interpret (fuel : Nat) (command : Memory) :
    Keeps (Emits fun _ => True) (interpret fw parseFresh fuel command) := by
  have commands : Composed fw (fun _ => True) (CommandStep fw) (interpret fw parseFresh fuel command) :=
    composed_interpret (fun _ _ named => named) (Or.inr trivial) trivial trivial fuel
      (Or.inr trivial)
  exact emits_composed (commands.mono (fun _ allowed => allowed) fun _ _ named =>
    composed_commandStep (fun _ _ effect => effect) trivial trivial named)

/-- A routine that runs no command records calls only. -/
theorem emits_silent {α : Type} {routine : Routine σ α}
    (composed : Composed fw (fun _ => True) (SilentEffect fw) routine) :
    Keeps (Emits fun event => event.isCall = true) routine := by
  have frame : StorageFrame fw (Emits fun event => event.isCall = true) :=
    storageFrame_emits (fun _ isCall => isCall) fw
  refine composed.keeps fun _ _ named => ?_
  cases named with
  | setDrive drive => exact TerminalFrame.modifyTerminal _
  | storage named => exact Composed.keepsStorage (Composed.further named)

/-- The events of a run are those by which it extends the trace. -/
theorem events_of {allowed : Event → Prop} {α : Type} {routine : Routine σ α}
    (emits : Keeps (Emits allowed) routine) {machine after : Machine σ} {value : α}
    (ran : routine.run machine = .ok (value, after)) {events : List Event}
    (traced : after.trace = machine.trace ++ events) : ∀ event ∈ events, allowed event := by
  obtain ⟨found, extended, holds⟩ := emits.related machine value after ran
  have same : events = found := List.append_cancel_left (traced.symm.trans extended)
  exact same ▸ holds

/-! ## Lines without ampersands -/

/-- What a line without ampersands answers, and whether it dispatches `exit`. -/
theorem exits_alone (fuel : Nat) {command : Memory} {line : Text}
    (readable : scan command = some line) (alone : ampersand ∉ line) {machine after : Machine σ}
    {result : Bool}
    (ran : (interpret fw parseFresh (fuel + 1) command).run machine = .ok (result, after))
    {events : List Event} (traced : after.trace = machine.trace ++ events) :
    (result = true ↔ IsExit line) ∧ (IsExit line → Exits events) ∧
      (¬ IsSource line → Exits events → IsExit line) := by
  rcases interpret_command fw fuel readable alone with
    ⟨quiet, goesOn, unnamed⟩ | ⟨args, row, member, name, inRow, named, nonempty, same⟩
  · have stays : ¬ IsExit line := by
      rintro ⟨name, inExit, named⟩
      exact unnamed exitNames (by decide) name inExit named
    have calls := events_of (emits_silent (quiet.mono (fun _ allowed => allowed)
      fun _ _ never => False.elim never)) ran traced
    have result_false : result = false := goesOn result ⟨machine, after, ran⟩
    refine ⟨iff_of_false ?_ stays, fun exits => absurd exits stays, fun _ exits => ?_⟩
    · rw [result_false]
      exact Bool.false_ne_true
    · exact absurd exits (calls_noExit calls)
  · have facts : RowFacts fw (fun _ => True) row := facts_commands (fun _ _ => trivial)
      (interpret fw parseFresh fuel) fuel nonempty args row member
    have inNames : row.1 ∈ commandNames :=
      commands_names fw (interpret fw parseFresh fuel) fuel (tokens terminalMaxArgs line) args ▸
        List.mem_map_of_mem member
    have isExit : IsExit line ↔ row.1 = exitNames := by
      rw [← exitNames_only row.1 inNames name inRow, List.mem_map]
      refine ⟨fun ⟨other, inExit, found⟩ => ⟨other, inExit, ?_⟩, fun ⟨other, inExit, found⟩ => ?_⟩
      · exact (Option.some.inj (named.symm.trans found)).symm
      · exact ⟨other, inExit, named.trans (congrArg some found.symm)⟩
    rw [same] at ran
    obtain ⟨_, recorded, records, behind⟩ := (run_bind_ok _ _ _ _).mp ran
    cases records
    have answer : result = decide (row.1 = exitNames) := facts.answers result ⟨_, after, behind⟩
    have answered : result = true ↔ IsExit line := by rw [answer, decide_eq_true_eq, isExit]
    by_cases sources : row.1 = sourceNames
    · have isSource : IsSource line := ⟨name, sources ▸ inRow, named⟩
      have stays : ¬ IsExit line := by
        rw [isExit, sources]
        decide
      exact ⟨answered, fun exits => absurd exits stays, fun other => absurd isSource other⟩
    · obtain ⟨later, extended, calls⟩ :=
        (emits_silent (facts.silent sources fun _ => trivial)).related _ result after behind
      have split : events = .command (text name) (wordsOf machine.terminal
          (tokens terminalMaxArgs line)) :: later := by
        rw [List.append_assoc] at extended
        exact List.append_cancel_left (traced.symm.trans extended)
      refine ⟨answered, fun exits => ?_, fun _ exits => ?_⟩
      · refine ⟨_, split ▸ List.mem_cons_self, name, ?_, _, rfl⟩
        exact isExit.mp exits ▸ inRow
      · obtain ⟨event, isEvent, other, inExit, words, rfl⟩ := exits
        rw [split] at isEvent
        rcases List.mem_cons.mp isEvent with same | inLater
        · injection same with sameName
          exact ⟨other, inExit, named.trans (congrArg some sameName.symm)⟩
        · cases calls _ inLater

/-! ## Command lists -/

/-- The last segment of a line. It alone decides what the line answers. -/
def lastSegment (line : Text) : Text := (segments line).getLast (segments_nonempty line)

/-- The last segment stands behind the first ampersand, if there is one. -/
theorem lastSegment_first {first rest : Text} (free : ampersand ∉ first) :
    lastSegment (first ++ ampersand :: rest) = lastSegment rest := by
  simp only [lastSegment, segments_first free]
  exact List.getLast_cons (segments_nonempty rest)

/-- The line ends the shell if its last segment is an `exit`. -/
def EndsShell (line : Text) : Prop := IsExit (lastSegment line)

instance (line : Text) : Decidable (EndsShell line) :=
  inferInstanceAs (Decidable (IsExit (lastSegment line)))

/-- What a line answers, and whether it dispatches `exit`.

Induct over the length of the line, segment by segment. -/
theorem exits_line (fuel : Nat) {command : Memory} {line : Text}
    (readable : scan command = some line) (fits : line.length ≤ terminalMaxLine - 1)
    {machine after : Machine σ} {result : Bool}
    (ran : (interpret fw parseFresh fuel command).run machine = .ok (result, after))
    {events : List Event} (traced : after.trace = machine.trace ++ events) :
    (result = true ↔ EndsShell line) ∧
      ((∃ segment ∈ segments line, IsExit segment) → Exits events) ∧
      ((∀ segment ∈ segments line, ¬ IsSource segment) → Exits events →
        ∃ segment ∈ segments line, IsExit segment) := by
  induction counted : line.length using Nat.strong_induction_on
    generalizing line command machine fuel events with
  | _ length ih =>
    obtain ⟨fuel, rfl⟩ : ∃ smaller, fuel = smaller + 1 := by
      refine Nat.exists_eq_succ_of_ne_zero ?_
      rintro rfl
      cases ran
    by_cases joined : ampersand ∈ line
    · obtain ⟨first, rest, rfl, firstFree⟩ := exists_segment joined
      rw [List.length_append, List.length_cons] at fits counted
      obtain ⟨free, _, _⟩ := scan_split _ _ readable
      have solid : ∀ part ⊆ first ++ ampersand :: rest, (0 : CHAR16) ∉ trimmed part :=
        fun part within member => free (within (trimmed_subset part member))
      have firstReadable : scan (terminalCopySegment first) = some (trimmed first) := by
        rw [terminalCopySegment_fits (by omega)]
        exact scan_append _ [] (solid first (List.subset_append_left _ _))
      have restReadable : scan (terminalCopySegment rest) = some (trimmed rest) := by
        rw [terminalCopySegment_fits (by omega)]
        exact scan_append _ [] (solid rest fun unit member =>
          List.mem_append_right first (List.mem_cons_of_mem ampersand member))
      have restShorter := trimmed_length rest
      rw [interpret_split fuel readable firstFree] at ran
      obtain ⟨early, middle, ranFirst, ranRest⟩ := (run_bind_ok _ _ _ _).mp ran
      obtain ⟨fuel, rfl⟩ : ∃ smaller, fuel = smaller + 1 := by
        refine Nat.exists_eq_succ_of_ne_zero ?_
        rintro rfl
        cases ranFirst
      obtain ⟨before, toMiddle, _⟩ :=
        (emits_interpret (fuel + 1) (terminalCopySegment first)).related _ early middle ranFirst
      obtain ⟨later, toAfter, _⟩ :=
        (emits_interpret (fuel + 1) (terminalCopySegment rest)).related _ result after ranRest
      have split : events = before ++ later := by
        rw [toMiddle, List.append_assoc] at toAfter
        exact List.append_cancel_left (traced.symm.trans toAfter)
      obtain ⟨_, firstExits, firstOnly⟩ := exits_alone fuel firstReadable
        (fun member => firstFree (trimmed_subset first member)) ranFirst toMiddle
      obtain ⟨answered, restExits, restOnly⟩ := ih (trimmed rest).length (by omega) (fuel + 1)
        restReadable (by omega) ranRest toAfter rfl
      rw [segments_trimmed] at restExits restOnly
      have sameLast : lastSegment (first ++ ampersand :: rest) = lastSegment (trimmed rest) := by
        rw [lastSegment_first firstFree]
        simp only [lastSegment, segments_trimmed]
      rw [segments_first firstFree, split, exits_append, EndsShell, sameLast, List.exists_mem_cons_iff,
        List.forall_mem_cons]
      refine ⟨answered, Or.imp firstExits restExits, fun ⟨noScript, noScripts⟩ => ?_⟩
      exact Or.imp (firstOnly noScript) (restOnly noScripts)
    · have same : commandOf (trimmed line) = commandOf line := commandOf_trimmed fits
      have alone : segments line = [trimmed line] := segments_single joined
      have last : lastSegment line = trimmed line := by
        simp only [lastSegment, alone, List.getLast_singleton]
      obtain ⟨answered, exits, dispatched⟩ := exits_alone fuel readable joined ran traced
      have sameExit : IsExit (trimmed line) ↔ IsExit line := by rw [IsExit, IsExit, same]
      have sameSource : IsSource (trimmed line) ↔ IsSource line := by rw [IsSource, IsSource, same]
      simp only [EndsShell, last, alone, List.mem_singleton, forall_eq, exists_eq_left, sameExit,
        sameSource]
      exact ⟨answered, exits, dispatched⟩

/-! ## The shell -/

/-- The part of a round of the shell that reads a line behind the prompt. -/
def promptedLine (fw : Firmware σ) (fuel : Nat) : Routine σ (Int32 × Memory) := do
  let machine ← get
  terminalWrite fw (terminalCurrentPrompt machine.terminal)
  terminalReadLine fw fuel terminalMaxLine

/-- A round of the shell runs the line that it reads, and leaves the loop if the line answers
so. -/
theorem run_shellRound (fuel : Nat) {machine read after : Machine σ} {typed : Int32 × Memory}
    {result : Bool} (reads : (promptedLine fw fuel).run machine = .ok (typed, read))
    (accepted : typed.1 ≠ 0)
    (ran : (terminalExecuteCommand fw fuel typed.2).run read = .ok (result, after)) :
    (shellRound fw fuel ()).run machine = .ok (if result then .inr () else .inl (), after) := by
  have split : shellRound fw fuel () = (do
      let line ← promptedLine fw fuel
      if line.1 = 0 then return .inl ()
      else if ← terminalExecuteCommand fw fuel line.2 then return .inr ()
      else return .inl ()) := by
    simp only [shellRound, promptedLine, bind_assoc]
  rw [split, run_bind_of_ok reads, if_neg accepted, run_bind_of_ok ran]
  cases result with
  | true => rfl
  | false => rfl

/-- A line that is read fits into the buffers of the interpreter. -/
theorem promptedLine_fits (fuel : Nat) {machine read : Machine σ} {typed : Int32 × Memory}
    {line : Text}
    (reads : (promptedLine fw fuel).run machine = .ok (typed, read))
    (readable : scan typed.2 = some line) : line.length ≤ terminalMaxLine - 1 := by
  obtain ⟨_, viewed, _, behind⟩ := (run_bind_ok _ _ _ _).mp reads
  obtain ⟨_, prompted, _, typing⟩ := (run_bind_ok _ _ _ _).mp behind
  rcases terminalReadLine_returns fw (by decide) typed ⟨prompted, read, typing⟩ with
    rfl | ⟨found, ⟨short, free⟩, rfl⟩
  · cases readable
  · have same := scan_append found [] free
    rw [Option.some.inj (readable.symm.trans same)]
    exact Nat.le_sub_one_of_lt short

/-- No `exit` is lost: if one is dispatched, the line answers so and the shell leaves its loop, and
otherwise the shell goes on. -/
def ExitKept (fw : Firmware σ) (fuel : Nat) (machine after : Machine σ) (result : Bool)
    (events : List Event) : Prop :=
  (Exits events → result = true ∧ (shellRound fw fuel ()).run machine = .ok (.inr (), after)) ∧
    (¬ Exits events → (shellRound fw fuel ()).run machine = .ok (.inl (), after))

/-- No `exit` is lost in a round that answers for it, and only there. -/
theorem exitKept_iff (fuel : Nat) {machine read after : Machine σ} {typed : Int32 × Memory}
    {result : Bool} (reads : (promptedLine fw fuel).run machine = .ok (typed, read))
    (accepted : typed.1 ≠ 0)
    (ran : (terminalExecuteCommand fw fuel typed.2).run read = .ok (result, after))
    (events : List Event) :
    ExitKept fw fuel machine after result events ↔ (Exits events ↔ result = true) := by
  have round := run_shellRound fuel reads accepted ran
  rw [ExitKept, round]
  cases result with
  | true =>
    refine ⟨fun kept => ⟨fun _ => rfl, fun _ => ?_⟩, fun same => ⟨fun _ => ⟨rfl, rfl⟩, ?_⟩⟩
    · by_contra lost
      cases kept.2 lost
    · exact fun lost => absurd (same.mpr rfl) lost
  | false =>
    refine ⟨fun kept => ⟨fun exits => (kept.1 exits).1, fun never => by cases never⟩, fun same => ?_⟩
    exact ⟨fun exits => absurd (same.mp exits) Bool.false_ne_true, fun _ => rfl⟩

/-- In a round of the shell no `exit` is lost exactly if the line that was read ends the shell
itself whenever an `exit` is dispatched for it. If no segment of the line runs a script, this is
up to the line alone: one of its segments is an `exit` only if the last one is. The answer of a
segment in front of an ampersand is dropped, and so are the answers of the lines of a script. -/
theorem exit_kept_iff (fuel : Nat) {machine read after : Machine σ} {typed : Int32 × Memory}
    {line : Text} {result : Bool} {events : List Event}
    (reads : (promptedLine fw fuel).run machine = .ok (typed, read)) (accepted : typed.1 ≠ 0)
    (readable : scan typed.2 = some line)
    (ran : (terminalExecuteCommand fw fuel typed.2).run read = .ok (result, after))
    (traced : after.trace = read.trace ++ events) :
    (ExitKept fw fuel machine after result events ↔ (Exits events → EndsShell line)) ∧
      ((∀ segment ∈ segments line, ¬ IsSource segment) →
        (ExitKept fw fuel machine after result events ↔
          ((∃ segment ∈ segments line, IsExit segment) → EndsShell line))) := by
  have fits := promptedLine_fits fuel reads readable
  obtain ⟨contents, reached, same, isAfter⟩ := alike_run (coupled_interpret fuel _ typed.2) ran
  have reachedTraced : reached.trace = read.trace ++ events := by
    rw [← traced, isAfter]
    rfl
  obtain ⟨answered, dispatches, dispatched⟩ := exits_line fuel readable fits same reachedTraced
  have last : EndsShell line → Exits events := fun ends =>
    dispatches ⟨_, List.getLast_mem (segments_nonempty line), ends⟩
  have kept : ExitKept fw fuel machine after result events ↔ (Exits events → EndsShell line) := by
    rw [exitKept_iff fuel reads accepted ran, answered]
    exact ⟨fun same => same.mp, fun ends => ⟨ends, last⟩⟩
  refine ⟨kept, fun noScript => kept.trans ?_⟩
  exact ⟨fun ends exits => ends (dispatches exits),
    fun ends exits => ends (dispatched noScript exits)⟩

/-- The machine on whose keyboard a text is typed. -/
def typedAt (typed : String) : Machine (List CHAR16) := Machine.entered (text typed)

/-- The machine once the line has been read. -/
def readAt (typed : String) : Machine (List CHAR16) :=
  finalState (promptedLine keyboard 20) (typedAt typed)

/-- The machine once the command has been run. -/
def ranAt (typed : String) (command : Memory) : Machine (List CHAR16) :=
  finalState (terminalExecuteCommand keyboard 20 command) (readAt typed)

/-- The events of the run, without those of the reading of its line. -/
def eventsAt (typed : String) (command : Memory) : List Event :=
  (ranAt typed command).trace.drop (readAt typed).trace.length

/-- An `exit` behind another command is dispatched and ends the shell. -/
theorem exit_last_kept :
    Exits (eventsAt "rem & exit\r" (constant "rem & exit")) ∧
      ExitKept keyboard 20 (typedAt "rem & exit\r") (ranAt "rem & exit\r" (constant "rem & exit"))
        true (eventsAt "rem & exit\r" (constant "rem & exit")) := by
  have reads : (promptedLine keyboard 20).run (typedAt "rem & exit\r") =
      .ok ((10, constant "rem & exit"), readAt "rem & exit\r") := run_finalState (by decide +kernel)
  have ran : (terminalExecuteCommand keyboard 20 (constant "rem & exit")).run
      (readAt "rem & exit\r") = .ok (true, ranAt "rem & exit\r" (constant "rem & exit")) :=
    run_finalState (by decide +kernel)
  have readable : scan (constant "rem & exit") = some (text "rem & exit") := by decide
  have dispatched : Event.command (text "exit") [text "exit"] ∈
      eventsAt "rem & exit\r" (constant "rem & exit") := by decide +kernel
  have ends : EndsShell (text "rem & exit") := by decide +kernel
  refine ⟨⟨_, dispatched, "exit", by decide, _, rfl⟩, ?_⟩
  exact (exit_kept_iff 20 reads (by decide) readable ran (by decide +kernel)).1.mpr fun _ => ends

/-- An `exit` in front of another command is lost: it is dispatched, the line answers that the
shell goes on, and the shell does. -/
theorem exit_lost :
    ∃ read after events, (promptedLine keyboard 20).run (typedAt "exit & rem\r") =
        .ok ((10, constant "exit & rem"), read) ∧
      (terminalExecuteCommand keyboard 20 (constant "exit & rem")).run read = .ok (false, after) ∧
      after.trace = read.trace ++ events ∧ Exits events ∧
      (shellRound keyboard 20 ()).run (typedAt "exit & rem\r") = .ok (.inl (), after) := by
  have reads : (promptedLine keyboard 20).run (typedAt "exit & rem\r") =
      .ok ((10, constant "exit & rem"), readAt "exit & rem\r") := run_finalState (by decide +kernel)
  have ran : (terminalExecuteCommand keyboard 20 (constant "exit & rem")).run
      (readAt "exit & rem\r") = .ok (false, ranAt "exit & rem\r" (constant "exit & rem")) :=
    run_finalState (by decide +kernel)
  have dispatched : Event.command (text "exit") [text "exit"] ∈
      eventsAt "exit & rem\r" (constant "exit & rem") := by decide +kernel
  refine ⟨_, _, eventsAt "exit & rem\r" (constant "exit & rem"), reads, ran, by decide +kernel, ?_,
    run_shellRound 20 reads (by decide) ran⟩
  exact ⟨_, dispatched, "exit", by decide, _, rfl⟩

end ExistentOS.Terminal
