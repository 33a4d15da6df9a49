import ExistentOS.Terminal.LineBuffer

/-!
# Buffers of the interpreter

No run of the interpreter leaves one of its buffers. The bounds are established where the
buffers are filled: a line that is parsed, a segment, a stored line, a line of a script, a
line that is typed. What is left is that a string loop reads terminated strings only and
that no handler reads a word that was not set. Both are drawn from the derivation of the
interpreter; the firmware is trusted not to store or report more than it was asked for.
-/

namespace ExistentOS.Terminal

open Programs Terminated Accounts

variable {σ : Type} {fw : Firmware σ}

/-! ## Sizes -/

/-- A segment fits into its buffer with its terminator. -/
theorem terminalCopySegment_length (segment : Text) :
    (terminalCopySegment segment).length ≤ terminalMaxLine := by
  rw [terminalCopySegment, List.length_append, List.length_take, List.length_singleton]
  have bound : terminalMaxLine = 128 := rfl
  omega

/-- The loop over the words sets no more places than are admitted. -/
theorem words_length (left : Nat) (buffer : Vector CHAR16 128) (cursor : Nat) (argv : List Nat)
    (parsed : Vector CHAR16 128) (found : words left buffer cursor = some (argv, parsed)) :
    argv.length ≤ left := by
  induction left generalizing buffer cursor argv parsed with
  | zero =>
    cases found
    exact Nat.le_refl 0
  | succ left ih =>
    simp only [words, Option.bind_eq_bind, Option.bind_eq_some_iff] at found
    obtain ⟨first, _, found⟩ := found
    by_cases empty : first = 0
    · rw [if_pos empty] at found
      cases found
      exact Nat.zero_le _
    rw [if_neg empty, Option.bind_eq_some_iff] at found
    obtain ⟨ending, _, found⟩ := found
    rw [Option.bind_eq_some_iff] at found
    obtain ⟨last, _, found⟩ := found
    by_cases ended : last = 0
    · rw [if_pos ended] at found
      cases found
      exact Nat.succ_le_succ (Nat.zero_le left)
    rw [if_neg ended, Option.bind_eq_some_iff] at found
    obtain ⟨next, _, found⟩ := found
    rw [Option.bind_eq_some_iff] at found
    obtain ⟨⟨later, rest⟩, ran, same⟩ := found
    cases same
    exact Nat.succ_le_succ (ih _ next later rest ran)

/-- A line is taken apart into no more words than `argv` has room for. -/
theorem terminalParseCommand_length (command : Memory) (maxArgs : Nat) (argv : List Nat)
    (returned : Returns (terminalParseCommand command maxArgs : Routine σ (List Nat)) argv) :
    argv.length ≤ maxArgs := by
  revert argv
  apply returns_of_wp
  intro machine
  rw [terminalParseCommand, wp_bind, wp_get, wp_bind, wp_orOverrun]
  refine ⟨fun line _ => ?_, fun _ => trivial⟩
  rw [wp_bind, wp_orOverrun]
  refine ⟨fun start _ => ?_, fun _ => trivial⟩
  rw [wp_bind, wp_orOverrun]
  refine ⟨fun found same => ?_, fun _ => trivial⟩
  exact words_length maxArgs line start found.1 found.2 same

/-! ## Runs -/

/-- The reasons other than a buffer for which the interpreter stops. -/
def Spared (stop : Stop) : Prop := stop = .fault ∨ stop = .outOfFuel

/-- The effects of the commands do not stop. -/
theorem commandEffect_returns {α : Type} {routine : Routine σ α} {E : Stop → Prop}
    (named : CommandEffect fw α routine) (machine : Machine σ) :
    wp routine (fun _ _ => True) E machine := by
  cases named with
  | record name argv => trivial
  | setDrive drive => trivial
  | storage named =>
    cases named with
    | file named =>
      cases named with
      | deleteFile file => trivial
      | writeFile file bytes => trivial
    | modifyAccounts update => trivial

/-- The interpreter over tokens of its own stops for incidental and for spared reasons only. -/
theorem interpret_spares (stores : Composed.ReadsWithin fw) (reports : ReportsWithin fw)
    (fuel : Nat) {command : Memory} (ends : (0 : CHAR16) ∈ command) (machine : Machine σ) :
    wp (interpret fw parseFresh fuel command) (fun _ _ => True)
      (fun stop => stop.incidental = true ∨ Spared stop) machine := by
  have commands : Composed fw Spared (CommandStep fw) (interpret fw parseFresh fuel command) :=
    composed_interpret (fun _ _ named => named) (Or.inl reports) (Or.inl rfl) (Or.inr rfl) fuel
      (Or.inl ends)
  have effects : Composed fw Spared (CommandEffect fw) (interpret fw parseFresh fuel command) :=
    commands.mono (fun _ spared => spared) (fun _ _ named =>
      composed_commandStep (fun _ _ effect => effect) (Or.inl rfl) (Or.inr rfl) named)
  exact effects.stops (Or.inl stores) (fun _ _ effect => commandEffect_returns effect) machine

/-- No run of the interpreter leaves a buffer, whatever the firmware answers, as long as no read
stores or reports more than it was asked for. -/
theorem terminalExecuteCommand_spares (stores : Composed.ReadsWithin fw)
    (reports : ReportsWithin fw) (fuel : Nat) {command : Memory} (ends : (0 : CHAR16) ∈ command)
    (machine : Machine σ) :
    (terminalExecuteCommand fw fuel command).run machine ≠ .error .overrun := by
  intro overrun
  have spared : wp (terminalExecuteCommand fw fuel command) (fun _ _ => True)
      (fun stop => stop.incidental = true ∨ Spared stop) machine :=
    wp_terminalExecuteCommand (interpret_spares stores reports fuel ends machine)
      (fun _ _ _ _ => trivial)
  rcases ((wp_iff _ _ _ _).mp spared).2 .overrun overrun with incidental | fault | exhausted
  · cases incidental
  · cases fault
  · cases exhausted

/-- Buffer safety. No run of a terminated line, of whatever length, leaves a buffer or reads a
word that was not set: `&` lists, pipelines and scripts included, for every file content, every
keystroke and every nesting. Segments and words stay within their buffers throughout. Every store
into a buffer is tested in the model, so that an overrun would be a stop. -/
theorem interpreter_withinBuffers (fw : Firmware σ) (stores : Composed.ReadsWithin fw)
    (reports : ReportsWithin fw) :
    (∀ (fuel : Nat) (command : Memory) (machine : Machine σ), (0 : CHAR16) ∈ command →
      (terminalExecuteCommand fw fuel command).run machine ≠ .error .overrun) ∧
    (∀ segment, (terminalCopySegment segment).length ≤ terminalMaxLine) ∧
    (∀ (command : Memory) (argv : List Nat),
      Returns (terminalParseCommand command terminalMaxArgs : Routine σ (List Nat)) argv →
        argv.length ≤ terminalMaxArgs) := by
  refine ⟨fun fuel command machine ends => ?_, terminalCopySegment_length, fun command argv => ?_⟩
  · exact terminalExecuteCommand_spares stores reports fuel ends machine
  · exact terminalParseCommand_length command terminalMaxArgs argv

/-- A pipeline on a firmware without input stays within its buffers. -/
theorem pipeline_withinBuffers :
    (terminalExecuteCommand (Firmware.inert : Firmware Unit) 3 (constant "echo a b | grep b")).run
      (Machine.entered ()) ≠ .error .overrun :=
  (interpreter_withinBuffers Firmware.inert (fun _ _ _ => Nat.zero_le _)
    (fun _ _ _ => Nat.zero_le _)).1 3 _ _ (constant_ends _)

end ExistentOS.Terminal
