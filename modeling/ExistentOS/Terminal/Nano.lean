import ExistentOS.Library.Dialogues
import ExistentOS.Terminal.Typing

/-!
# The editor

`terminal_run_nano` as a dialogue. It counts the lines that are added, up to the size of a buffer
that it does not have: no line is kept anywhere.
-/

namespace ExistentOS.Terminal

open Programs Terminated Dialogues

variable {σ : Type}

/-- A line calls a name: it is the name, or the name and a space come first. -/
def Calls (name line : Text) : Prop := line = name ∨ name ++ [space] <+: line

instance (name line : Text) : Decidable (Calls name line) :=
  inferInstanceAs (Decidable (line = name ∨ name ++ [space] <+: line))

/-- A line matches a name exactly if it calls it. -/
theorem terminalMatchCommand_calls {line : Text} (name : Text) (free : (0 : CHAR16) ∉ line)
    (nameFree : 0 ∉ name ∧ space ∉ name) :
    terminalMatchCommand (line ++ [0]) (name ++ [0]) = some (decide (Calls name line)) := by
  induction name generalizing line with
  | nil =>
    cases line with
    | nil => simp [terminalMatchCommand, Calls]
    | cons left line =>
      have nonzero : left ≠ 0 := fun zero => free (zero ▸ List.mem_cons_self)
      simp [terminalMatchCommand, Calls, nonzero, eq_comm]
  | cons right name ih =>
    have nonzero : right ≠ 0 := fun zero => nameFree.1 (zero ▸ List.mem_cons_self)
    have rest : 0 ∉ name ∧ space ∉ name :=
      ⟨fun member => nameFree.1 (List.mem_cons_of_mem right member),
        fun member => nameFree.2 (List.mem_cons_of_mem right member)⟩
    cases line with
    | nil => simp [terminalMatchCommand, Calls, nonzero]
    | cons left line =>
      have leftNonzero : left ≠ 0 := fun zero => free (zero ▸ List.mem_cons_self)
      have lineFree : (0 : CHAR16) ∉ line := fun member => free (List.mem_cons_of_mem left member)
      by_cases same : left = right
      · subst same
        have tail : Calls (left :: name) (left :: line) ↔ Calls name line := by simp [Calls]
        simp [terminalMatchCommand, nonzero, ih lineFree rest, tail]
      · simp [terminalMatchCommand, nonzero, same, Calls, Ne.symm same]

/-! ## The dialogue -/

/-- The line that units leave in the buffer of the editor. -/
def editorLine (units : List CHAR16) : Text := editAll terminalMaxLine [] units

/-- What the editor replies to a line behind so many others. -/
def nanoReply (count : Nat) (line : Text) : String :=
  if Calls (text "exit") line ∨ Calls (text "quit") line then "exiting nano"
  else if Calls (text "save") line then "saved nano buffer"
  else if terminalMaxEditorLines ≤ count then "editor buffer full"
  else "line added"

/-- The line leaves the editor. Saving leaves it as well, though nothing is stored. -/
def LeavesNano (line : Text) : Prop :=
  Calls (text "exit") line ∨ Calls (text "quit") line ∨ Calls (text "save") line

instance (line : Text) : Decidable (LeavesNano line) :=
  inferInstanceAs (Decidable (_ ∨ _ ∨ _))

/-- What is said to a line. An empty one is not answered. -/
def nanoTexts (count : Nat) (line : Text) : List Text :=
  if line = [] then [] else [text (nanoReply count line), [carriageReturn, lineFeed]]

/-- Where a line leads: out of the editor, or to the next line with the count as it is or one
higher. -/
def nanoNext (count : Nat) (line : Text) : Nat ⊕ Unit :=
  if line = [] then .inl count
  else if LeavesNano line then .inr ()
  else .inl (if terminalMaxEditorLines ≤ count then count else count + 1)

/-- The dialogue of `terminal_run_nano`. Its state is the count of lines, as the editor keeps
nothing else. -/
def nanoDialogue (echo : Bool) : Dialogue Nat (List CHAR16) Text Unit where
  prompt _ := [text "nano> "]
  answer count units := responses echo terminalMaxLine [] units ++ [[carriageReturn, lineFeed]] ++
    nanoTexts count (editorLine units)
  next count units := nanoNext count (editorLine units)

/-- What the editor does while it takes some lines: it writes its texts, and changes nothing but
the console. -/
def Edited (lines : List (List CHAR16)) (texts : List Text) (_ : Nat ⊕ Unit)
    (machine after : Machine σ) : Prop :=
  Talks lines texts machine after ∧ OnlyFirmware machine after

/-- The parts of a dialogue in turn. -/
theorem Edited.then {early late : List (List CHAR16)} {texts later : List Text} {count : Nat}
    {outcome : Nat ⊕ Unit} {machine middle after : Machine σ}
    (before : Edited early texts (.inl count) machine middle)
    (behind : Edited late later outcome middle after) :
    Edited (early ++ late) (texts ++ later) outcome machine after :=
  ⟨before.1.then (console_of_frame before.2).2.1 behind.1, before.2.then behind.2⟩

/-- The editor carries its dialogue out, one round of the loop for a line. -/
def nanoCarrier (echo : Bool) : Carrier (nanoDialogue echo) (Machine σ) Nat Unit where
  view count _ := count
  value _ := ()
  takes := Edited
  further := Edited.then

/-! ## Rounds -/

section Rounds

variable {fw : Firmware σ} {fuel count : Nat} {machine middle : Machine σ} {line : Int32 × Memory}
  {units : List CHAR16}

/-- A round asks for a line, and then answers it. -/
theorem nanoRound_split : nanoRound fw fuel count = (do
    let line ← ask fw fuel terminalMaxLine (text "nano> ")
    if line.1 = 0 then return .inl count
    else if (← orOverrun (matchedName line.2 ["exit", "quit"])).isSome then
      say fw "exiting nano"
      return .inr ()
    else if ← orOverrun (terminalMatchCommand line.2 (constant "save")) then
      say fw "saved nano buffer"
      return .inr ()
    else if count ≥ terminalMaxEditorLines then
      say fw "editor buffer full"
      return .inl count
    else
      say fw "line added"
      return .inl (count + 1)) := by
  simp only [nanoRound, ask, constant, bind_assoc]

/-- Saying a text, and what is returned behind it. -/
theorem run_said {α : Type} {message : String} (free : (0 : CHAR16) ∉ text message) (value : α)
    (machine : Machine σ) : (do say fw message; return value : Routine σ α).run machine =
      .ok (value, afterWrites fw machine [text message, [carriageReturn, lineFeed]]) :=
  run_bind_of_ok (shows_say free machine)

/-- A round replies to the line that is read. -/
theorem run_nanoRound
    (asks : (ask fw fuel terminalMaxLine (text "nano> ")).run machine = .ok (line, middle))
    (asked : Asked terminalMaxLine (text "nano> ") units machine middle line) :
    (nanoRound fw fuel count).run machine = .ok (nanoNext count (editorLine units),
      afterWrites fw middle (nanoTexts count (editorLine units))) := by
  have free : (0 : CHAR16) ∉ editorLine units :=
    (editAll_within ⟨by decide, List.not_mem_nil⟩ units).2
  have blank : line.1 = 0 ↔ editorLine units = [] := asked.blank_iff (by decide) (by decide)
  have stored : line.2 = editorLine units ++ [0] := by rw [asked.returned]; rfl
  have exits := terminalMatchCommand_calls (text "exit") free (by decide)
  have quits := terminalMatchCommand_calls (text "quit") free (by decide)
  have saves := terminalMatchCommand_calls (text "save") free (by decide)
  rw [nanoRound_split, run_bind_of_ok asks]
  by_cases empty : editorLine units = []
  · rw [if_pos (blank.mpr empty)]
    simp [nanoNext, nanoTexts, empty]
    rfl
  rw [if_neg fun zero => empty (blank.mp zero), stored]
  have matched : ∃ found, matchedName (editorLine units ++ [0]) ["exit", "quit"] = some found ∧
      (found.isSome ↔ Calls (text "exit") (editorLine units) ∨
        Calls (text "quit") (editorLine units)) := by
    by_cases exiting : Calls (text "exit") (editorLine units) <;>
      by_cases quitting : Calls (text "quit") (editorLine units) <;>
      simp [matchedName, constant, exits, quits, exiting, quitting]
  obtain ⟨found, named, some_iff⟩ := matched
  rw [named, run_orOverrun_bind]
  by_cases ends : Calls (text "exit") (editorLine units) ∨ Calls (text "quit") (editorLine units)
  · have leaves : LeavesNano (editorLine units) := ends.imp_right Or.inl
    rw [if_pos (some_iff.mpr ends), run_said (by decide)]
    simp [nanoNext, nanoTexts, nanoReply, empty, leaves, ends]
  rw [if_neg fun isSome => ends (some_iff.mp isSome), constant, saves, run_orOverrun_bind]
  by_cases stores : Calls (text "save") (editorLine units)
  · have leaves : LeavesNano (editorLine units) := Or.inr (Or.inr stores)
    rw [if_pos (decide_eq_true stores), run_said (by decide)]
    simp [nanoNext, nanoTexts, nanoReply, empty, leaves, ends, stores]
  have stays : ¬ LeavesNano (editorLine units) := fun leaves =>
    leaves.elim (fun exit => ends (Or.inl exit)) (Or.elim · (fun quit => ends (Or.inr quit)) stores)
  rw [if_neg (by simpa using stores)]
  by_cases full : terminalMaxEditorLines ≤ count
  · rw [if_pos full, run_said (by decide)]
    simp [nanoNext, nanoTexts, nanoReply, empty, stays, ends, stores, full]
  · rw [if_neg full, run_said (by decide)]
    simp [nanoNext, nanoTexts, nanoReply, empty, stays, ends, stores, full]

/-- Every round takes a line as the dialogue does. -/
theorem carries_nanoRound (fw : Firmware σ) (count : Nat)
    (asked : Asked terminalMaxLine (text "nano> ") units machine middle line) :
    ∃ reached, (nanoCarrier machine.terminal.echoEnabled).Carries count [units] reached machine
        (afterWrites fw middle (nanoTexts count (editorLine units))) ∧
      (nanoCarrier machine.terminal.echoEnabled).Agrees
        (afterWrites fw middle (nanoTexts count (editorLine units)))
        (nanoNext count (editorLine units)) reached := by
  have said := talks_afterWrites fw middle (nanoTexts count (editorLine units))
  have frame := afterWrites_onlyFirmware fw middle (nanoTexts count (editorLine units))
  have talks := asked.talks.then (console_of_frame asked.frame).2.1 said
  have next : (nanoDialogue machine.terminal.echoEnabled).next count units =
      nanoNext count (editorLine units) := rfl
  cases leads : nanoNext count (editorLine units) with
  | inl later =>
    rw [leads] at next
    refine ⟨.inl later, ⟨Dialogue.reaches_goes next [], ?_, asked.frame.then frame⟩, .goes later⟩
    simpa [Dialogue.transcript, nanoCarrier, nanoDialogue, leads, Terminal.asked] using talks
  | inr result =>
    rw [leads] at next
    refine ⟨.inr (), ⟨Dialogue.reaches_ends next, ?_, asked.frame.then frame⟩, .ends ()⟩
    simpa [Dialogue.transcript, nanoCarrier, nanoDialogue, leads, Terminal.asked] using talks

end Rounds

/-- A round with a keyboard has read a line. -/
theorem nanoRound_carries {fw : Firmware σ} {fuel count : Nat} {machine after : Machine σ}
    {outcome : Nat ⊕ Unit} {echo : Bool}
    (awaits : canRead machine = true ∧ machine.terminal.echoEnabled = echo)
    (ran : (nanoRound fw fuel count).run machine = .ok (outcome, after)) :
    (outcome.isLeft → canRead after = true ∧ after.terminal.echoEnabled = echo) ∧
      ∃ inputs reached, (nanoCarrier echo).Carries count inputs reached machine after ∧
        (nanoCarrier echo).Agrees after outcome reached := by
  obtain ⟨console, rfl⟩ := awaits
  have free : (0 : CHAR16) ∉ text "nano> " := by decide
  have asks := ran
  rw [nanoRound_split] at asks
  obtain ⟨line, middle, asks, _⟩ := (run_bind_ok _ _ _ _).mp asks
  obtain ⟨units, asked⟩ := asked_of_run (by decide) free console asks
  rw [run_nanoRound asks asked] at ran
  cases ran
  have frame := asked.frame.then
    (afterWrites_onlyFirmware fw middle (nanoTexts count (editorLine units)))
  obtain ⟨reads, _, terminal⟩ := console_of_frame frame
  exact ⟨fun _ => ⟨reads.trans console, by rw [terminal]⟩, [units], carries_nanoRound fw _ asked⟩

/-- Without a keyboard the editor never ends: every line is empty. -/
theorem nano_unread {fw : Firmware σ} {rounds fuel count : Nat} {machine after : Machine σ}
    (console : ¬ canRead machine) :
    (iterate .outOfFuel (nanoRound fw fuel) rounds count).run machine ≠ .ok ((), after) := by
  intro ran
  induction rounds generalizing machine count with
  | zero => cases ran
  | succ rounds ih =>
    have free : (0 : CHAR16) ∉ text "nano> " := by decide
    rw [iterate, nanoRound_split, bind_assoc] at ran
    obtain ⟨line, middle, asks, rest⟩ := (run_bind_ok _ _ _ _).mp ran
    obtain ⟨rfl, frame⟩ := ask_unread free console asks
    obtain ⟨reads, _, _⟩ := console_of_frame frame
    exact ih (by rwa [reads]) rest

/-- A round takes a line that is to be typed. -/
theorem nanoRound_returns {fw : Firmware σ} {keys : σ → List CHAR16} {fuel count : Nat}
    {rest : List CHAR16} {machine : Machine σ} {echo : Bool} (keyboard : Keyboard fw keys)
    {lines : List (List CHAR16)}
    (ready : (canRead machine = true ∧ machine.terminal.echoEnabled = echo) ∧
      ToType fuel lines rest (keys machine.firmware))
    (ends : (nanoDialogue echo).reaches count lines = some (.inr ())) :
    ∃ first later outcome reached after, lines = first ++ later ∧ first ≠ [] ∧
      (nanoRound fw fuel count).run machine = .ok (outcome, after) ∧
      ((canRead after = true ∧ after.terminal.echoEnabled = echo) ∧
        ToType fuel later rest (keys after.firmware)) ∧
      (nanoCarrier echo).Carries count first reached machine after ∧
      (nanoCarrier echo).Agrees after outcome reached := by
  obtain ⟨⟨console, rfl⟩, toType⟩ := ready
  cases lines with
  | nil => simp [Dialogue.reaches] at ends
  | cons units lines =>
    have free : (0 : CHAR16) ∉ text "nano> " := by decide
    obtain ⟨queued, goes, short, toType⟩ := toType.cons
    obtain ⟨line, middle, asks, asked, left⟩ :=
      keyboard.answers terminalMaxLine (by decide) free console goes queued short
    have frame := asked.frame.then
      (afterWrites_onlyFirmware fw middle (nanoTexts count (editorLine units)))
    obtain ⟨reads, _, terminal⟩ := console_of_frame frame
    obtain ⟨reached, carries, agrees⟩ := carries_nanoRound fw count asked
    refine ⟨[units], lines, _, reached, _, rfl, by simp, run_nanoRound asks asked,
      ⟨⟨reads.trans console, by rw [terminal]⟩, ?_⟩, carries, agrees⟩
    rw [keyboard.unspent, left]
    exact toType

/-! ## Exactness -/

/-- What the editor says when it is entered, in two lines. -/
def nanoGreeting : List Text :=
  [text "nano-like editor entered", [carriageReturn, lineFeed],
    text "type lines, save, or exit", [carriageReturn, lineFeed]]

/-- The lines that are not empty and do not leave the editor. -/
def ordinaryLines (lines : List (List CHAR16)) : List (List CHAR16) :=
  lines.filter fun units => editorLine units ≠ [] ∧ ¬ LeavesNano (editorLine units)

/-- The answers to the units of a line are short. -/
theorem responses_short {echo : Bool} {maxLength : Nat} {line shown : Text} {units : List CHAR16}
    (member : shown ∈ responses echo maxLength line units) : shown.length ≤ 3 := by
  induction units generalizing line with
  | nil => simp [responses] at member
  | cons unit rest ih =>
    rw [responses, List.mem_append] at member
    rcases member with first | later
    · rw [response] at first
      split at first
      · simp at first
      split at first
      · split at first <;> simp_all
      split at first <;> simp_all
    · exact ih later

/-- What the editor says while it takes a line tells whether the line is added. -/
theorem nano_added (echo : Bool) (count : Nat) (units : List CHAR16) :
    ((nanoDialogue echo).prompt count ++ (nanoDialogue echo).answer count units).count
        (text "line added") =
      if editorLine units ≠ [] ∧ ¬ LeavesNano (editorLine units) ∧ count < terminalMaxEditorLines
      then 1 else 0 := by
  have quiet : (responses echo terminalMaxLine [] units).count (text "line added") = 0 := by
    apply List.count_eq_zero_of_not_mem
    intro member
    exact absurd (responses_short member) (by decide)
  have prompt : text "nano> " ≠ text "line added" := by decide
  have lineEnd : [carriageReturn, lineFeed] ≠ text "line added" := by decide
  have replies : ∀ reply ∈ ["exiting nano", "saved nano buffer", "editor buffer full"],
      text reply ≠ text "line added" := by decide
  simp only [List.mem_cons, List.not_mem_nil, or_false, forall_eq_or_imp, forall_eq] at replies
  by_cases empty : editorLine units = []
  · simp [nanoDialogue, quiet, prompt, lineEnd, nanoTexts, empty]
  by_cases leaves : LeavesNano (editorLine units)
  · have reply : nanoReply count (editorLine units) = "exiting nano" ∨
        nanoReply count (editorLine units) = "saved nano buffer" := by
      by_cases ends : Calls (text "exit") (editorLine units) ∨ Calls (text "quit") (editorLine units)
      · exact Or.inl (if_pos ends)
      · have saves : Calls (text "save") (editorLine units) :=
          leaves.elim (fun exit => absurd (Or.inl exit) ends)
            (Or.elim · (fun quit => absurd (Or.inr quit) ends) id)
        exact Or.inr ((if_neg ends).trans (if_pos saves))
    rcases reply with reply | reply <;>
      simp [nanoDialogue, quiet, prompt, lineEnd, nanoTexts, empty, leaves, reply, replies]
  · obtain ⟨noExit, noQuit, noSave⟩ : ¬ Calls (text "exit") (editorLine units) ∧
        ¬ Calls (text "quit") (editorLine units) ∧ ¬ Calls (text "save") (editorLine units) := by
      simpa [LeavesNano, not_or] using leaves
    by_cases full : terminalMaxEditorLines ≤ count
    · simp [nanoDialogue, quiet, prompt, lineEnd, nanoTexts, nanoReply, empty, noExit, noQuit, noSave,
        full, replies, Nat.not_lt.mpr full]
    · simp [nanoDialogue, quiet, prompt, lineEnd, nanoTexts, nanoReply, empty, noExit, noQuit, noSave,
        full, leaves, Nat.not_le.mp full]

/-- As many ordinary lines are added as there is room for.

Induct over the lines. -/
theorem nano_addedAll (echo : Bool) {count : Nat} (room : count ≤ terminalMaxEditorLines)
    {lines : List (List CHAR16)}
    (ends : (nanoDialogue echo).reaches count lines = some (.inr ())) :
    ((nanoDialogue echo).transcript count lines).count (text "line added") =
      min (terminalMaxEditorLines - count) (ordinaryLines lines).length := by
  induction lines generalizing count with
  | nil => simp [Dialogue.reaches] at ends
  | cons units later ih =>
    have added := nano_added echo count units
    by_cases empty : editorLine units = []
    · have goes : (nanoDialogue echo).next count units = .inl count := by
        simp [nanoDialogue, nanoNext, empty]
      rw [Dialogue.reaches_goes goes] at ends
      rw [Dialogue.transcript_goes goes, List.count_append, added, ih room ends]
      simp [empty, ordinaryLines]
    by_cases leaves : LeavesNano (editorLine units)
    · have stops : (nanoDialogue echo).next count units = .inr () := by
        simp [nanoDialogue, nanoNext, empty, leaves]
      obtain rfl : later = [] := by simpa [Dialogue.reaches, stops] using ends
      rw [Dialogue.transcript_ends stops, added]
      simp [leaves, ordinaryLines]
    by_cases full : terminalMaxEditorLines ≤ count
    · have goes : (nanoDialogue echo).next count units = .inl count := by
        simp [nanoDialogue, nanoNext, empty, leaves, full]
      rw [Dialogue.reaches_goes goes] at ends
      rw [Dialogue.transcript_goes goes, List.count_append, added, ih room ends]
      simp [Nat.not_lt.mpr full, Nat.sub_eq_zero_of_le full]
    · have goes : (nanoDialogue echo).next count units = .inl (count + 1) := by
        simp [nanoDialogue, nanoNext, empty, leaves, full]
      rw [Dialogue.reaches_goes goes] at ends
      rw [Dialogue.transcript_goes goes, List.count_append, added, ih (by omega) ends]
      simp only [empty, leaves, Nat.not_le.mp full, ordinaryLines, ne_eq, not_false_eq_true, and_self,
        if_true, decide_true, List.filter_cons_of_pos, List.length_cons]
      omega

/-- The editor has taken some lines: what they lead to is the end, the console shows what the
dialogue says and nothing else is called or changed, and a line is added for each ordinary one
that there is room for. -/
structure NanoTaken (machine after : Machine σ) (lines : List (List CHAR16)) : Prop where
  dialogue : (nanoDialogue machine.terminal.echoEnabled).reaches 0 lines = some (.inr ())
  talks : Talks lines
    (nanoGreeting ++ (nanoDialogue machine.terminal.echoEnabled).transcript 0 lines) machine after
  frame : OnlyFirmware machine after
  added : ((nanoDialogue machine.terminal.echoEnabled).transcript 0 lines).count (text "line added") =
    min terminalMaxEditorLines (ordinaryLines lines).length

/-- The greeting comes first, and the rounds behind it. -/
theorem run_terminalRunNano (fw : Firmware σ) (fuel : Nat) (machine : Machine σ) :
    (terminalRunNano fw fuel).run machine =
      (iterate .outOfFuel (nanoRound fw fuel) fuel 0).run (afterWrites fw machine nanoGreeting) := by
  have greeting : Shows fw nanoGreeting () (do
      say fw "nano-like editor entered"
      say fw "type lines, save, or exit") :=
    (shows_say (by decide)).then (shows_say (by decide))
  rw [terminalRunNano, ← bind_assoc]
  exact run_bind_of_ok (greeting machine)

/-- What is carried through the dialogue to its end is an editor that has taken its lines. -/
theorem nanoTaken_of_carries {fw : Firmware σ} {machine after : Machine σ}
    {lines : List (List CHAR16)}
    (carries : (nanoCarrier machine.terminal.echoEnabled).Carries 0 lines (.inr ())
      (afterWrites fw machine nanoGreeting) after) : NanoTaken machine after lines := by
  have frame := afterWrites_onlyFirmware fw machine nanoGreeting
  refine ⟨carries.reaches, ?_, frame.then carries.takes.2, ?_⟩
  · exact (talks_afterWrites fw machine nanoGreeting).then (console_of_frame frame).2.1 carries.takes.1
  · exact nano_addedAll machine.terminal.echoEnabled (Nat.zero_le _) carries.reaches

/-- `terminal_run_nano` carries its dialogue out. Whatever the firmware answers, it returns only
if there is a keyboard and the last line typed on it leaves the editor; it replies to each line,
stores none of them and changes nothing. It does return once such lines have been typed, with
what is typed behind them still to be read. -/
theorem terminalRunNano_exact (fw : Firmware σ) (machine : Machine σ) :
    (∀ fuel after, (terminalRunNano fw fuel).run machine = .ok ((), after) →
      canRead machine = true ∧ ∃ lines, NanoTaken machine after lines) ∧
    ∀ keys, Keyboard fw keys → canRead machine = true → ∀ lines rest fuel,
      (nanoDialogue machine.terminal.echoEnabled).reaches 0 lines = some (.inr ()) →
      ToType fuel lines rest (keys machine.firmware) → lines.length ≤ fuel →
      ∃ after, (terminalRunNano fw fuel).run machine = .ok ((), after) ∧
        keys after.firmware = rest ∧ NanoTaken machine after lines := by
  obtain ⟨reads, _, terminal⟩ :=
    console_of_frame (afterWrites_onlyFirmware fw machine nanoGreeting)
  constructor
  · intro fuel after ran
    rw [run_terminalRunNano] at ran
    by_cases console : canRead machine
    · obtain ⟨lines, _, _, carries⟩ := carries_of_iterate
        (nanoCarrier machine.terminal.echoEnabled) _
        (fun _ _ _ _ awaits ran => nanoRound_carries awaits ran)
        ⟨reads.trans console, by rw [terminal]⟩ ran
      exact ⟨console, lines, nanoTaken_of_carries carries⟩
    · exact absurd ran (nano_unread (by rwa [reads]))
  · intro keys keyboard console lines rest fuel ends toType enough
    rw [← keyboard.unspent machine nanoGreeting] at toType
    obtain ⟨after, ran, ⟨_, left, _⟩, carries⟩ := iterate_carries
      (nanoCarrier machine.terminal.echoEnabled) Stop.outOfFuel _ _
      (fun _ _ _ _ ready ends => nanoRound_returns keyboard ready ends)
      ⟨⟨reads.trans console, by rw [terminal]⟩, toType⟩ ends enough
    refine ⟨after, ?_, by simpa [linesTyped] using left, nanoTaken_of_carries carries⟩
    rw [run_terminalRunNano]
    exact ran

/-- Two lines are added, an empty one is not, and a line that starts with a name and a space leaves
the editor. -/
theorem terminalRunNano_exact_quit : ∃ after,
    (terminalRunNano keyboard 20).run (Machine.entered (text "one\r\rtwo\rquit now\rexit")) =
      .ok ((), after) ∧ after.firmware = text "exit" ∧
    NanoTaken (Machine.entered (text "one\r\rtwo\rquit now\rexit")) after
      [text "one", [], text "two", text "quit now"] := by
  obtain ⟨_, returns⟩ := terminalRunNano_exact keyboard
    (Machine.entered (text "one\r\rtwo\rquit now\rexit"))
  exact returns id keyboard_typed rfl [text "one", [], text "two", text "quit now"] (text "exit") 20
    (by decide +kernel) ⟨by decide, by decide⟩ (by decide)

end ExistentOS.Terminal
