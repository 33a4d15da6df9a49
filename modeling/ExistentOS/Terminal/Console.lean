import ExistentOS.Composition

/-!
# Console input and output

`terminal_write`, `terminal_write_line` and `terminal_read_line`. Writing does
nothing without a console, and reading returns an empty line. The key structure
of the source is a local variable that no call has to fill in: a key stroke that
leaves it alone repeats the previous one, and there must be a previous one.
-/

namespace ExistentOS.Terminal

open Programs Terminated

variable {σ : Type}

/-- `gST && gST->ConOut && gST->ConOut->OutputString`. Without a console the terminal writes
nothing and goes on. -/
def canWrite (machine : Machine σ) : Bool := machine.gST.any (·.outputString)

/-- `gST && gST->ConIn && gST->ConIn->ReadKeyStroke`. Without a keyboard every line that is read
is empty. -/
def canRead (machine : Machine σ) : Bool := machine.gST.any (·.readKeyStroke)

/-- `terminal_write`. The firmware reads up to the terminator; a text without one is left in the
given way. -/
def terminalPut (fw : Firmware σ) (beyond : Stop) (memory : Memory) : Routine σ Unit := do
  let machine ← get
  if canWrite machine then
    let shown ← orStop beyond (scan memory)
    let _ ← outputString fw shown
    return ()
  else return ()

/-- `terminal_write` of a constant or a local text. One without a terminator leaves its buffer. -/
def terminalWrite (fw : Firmware σ) (memory : Memory) : Routine σ Unit :=
  terminalPut fw .overrun memory

/-- Writing reads a text up to its terminator only. -/
theorem terminalWrite_reads (fw : Firmware σ) : ReadsString (terminalWrite fw) := by
  intro text rest free
  simp only [terminalWrite, terminalPut, scan_reads text rest free]

/-- `terminal_write` of a field of the static storage. One without a terminator leaves its field
and is read on from the next. -/
def terminalWriteField (fw : Firmware σ) (memory : Memory) : Routine σ Unit :=
  terminalPut fw .fault memory

/-- `terminal_write_line`, which calls the console twice. -/
def terminalWriteLine (fw : Firmware σ) (memory : Memory) : Routine σ Unit := do
  terminalWrite fw memory
  terminalWrite fw [carriageReturn, lineFeed, 0]

/-- A line is written up to its terminator only. -/
theorem terminalWriteLine_reads (fw : Firmware σ) : ReadsString (terminalWriteLine fw) := by
  intro text rest free
  simp only [terminalWriteLine, terminalWrite_reads fw text rest free]

/-- `terminal_write_line` of a field of the static storage. -/
def terminalWriteFieldLine (fw : Firmware σ) (memory : Memory) : Routine σ Unit := do
  terminalWriteField fw memory
  terminalWrite fw [carriageReturn, lineFeed, 0]

/-- One round of the loop of `terminal_read_line`: the key structure and the line
so far, then either the same again or the final length, an `int`, and line. -/
def readLineRound (fw : Firmware σ) (maxLength : Nat) (current : Option CHAR16 × Text) :
    Routine σ ((Option CHAR16 × Text) ⊕ (Int32 × Memory)) := do
  let machine ← get
  if canRead machine then
    let stroke ← readKeyStroke fw
    let unit ← orStop .unset (stroke.2 <|> current.1)
    let line := current.2
    if unit = 0 then return .inl (some unit, line)
    if unit = carriageReturn then
      terminalWrite fw [carriageReturn, lineFeed, 0]
      let stored ← orOverrun (push maxLength line 0)
      return .inr (Int32.ofNat line.length, stored)
    if unit = backspace then
      if line.length > 0 then
        terminalWrite fw [backspace, space, backspace, 0]
      return .inl (some unit, line.dropLast)
    if line.length + 1 ≥ maxLength then return .inl (some unit, line)
    if machine.terminal.echoEnabled then
      terminalWrite fw [unit, 0]
    let grown ← orOverrun (push maxLength line unit)
    return .inl (some unit, grown)
  else return .inr (0, [])

/-- `terminal_read_line`, with the number of strokes it may wait for. Without a
console the line stays unwritten. -/
def terminalReadLine (fw : Firmware σ) (fuel maxLength : Nat) : Routine σ (Int32 × Memory) :=
  iterate .outOfFuel (readLineRound fw maxLength) fuel (none, [])

/-! ## Lines that are read -/

/-- The line so far fits into its buffer and has no terminator yet. -/
def LineWithin (maxLength : Nat) (line : Text) : Prop :=
  line.length < maxLength ∧ (0 : CHAR16) ∉ line

/-- What reading returns: a line with its terminator, or nothing without a console. -/
def LineRead (maxLength : Nat) (result : Int32 × Memory) : Prop :=
  result = (0, []) ∨ ∃ line, LineWithin maxLength line ∧ result = (Int32.ofNat line.length, line ++ [0])

/-- What a round of reading leaves: a line that fits, or a result. -/
def RoundRead (maxLength : Nat) (outcome : (Option CHAR16 × Text) ⊕ (Int32 × Memory)) : Prop :=
  outcome.elim (fun next => LineWithin maxLength next.2) (LineRead maxLength)

/-- What a round of reading makes of a line that fits. -/
theorem wp_readLineRound (fw : Firmware σ) {maxLength : Nat} {current : Option CHAR16 × Text}
    (within : LineWithin maxLength current.2) (machine : Machine σ) :
    wp (readLineRound fw maxLength current) (fun outcome _ => RoundRead maxLength outcome)
      (fun _ => True) machine := by
  obtain ⟨short, free⟩ := within
  rw [readLineRound, wp_bind, wp_get, wp_ite, wp_pure]
  refine ⟨fun _ => ?_, fun _ => Or.inl rfl⟩
  rw [wp_bind]
  apply wp_any
  intro stroke _
  rw [wp_bind]
  apply wp_any
  intro unit typed
  rw [wp_ite, wp_pure]
  refine ⟨fun _ => ⟨short, free⟩, fun nonzero => ?_⟩
  rw [wp_ite]
  refine ⟨fun _ => ?_, fun _ => ?_⟩
  · rw [wp_bind]
    apply wp_any
    intro _ _
    rw [wp_bind, wp_orOverrun, push_room short]
    exact ⟨fun _ stored => Or.inr ⟨current.2, ⟨short, free⟩, by cases stored; rfl⟩, fun _ => trivial⟩
  rw [wp_ite]
  have shortened : LineWithin maxLength current.2.dropLast := by
    refine ⟨?_, fun member => free (List.mem_of_mem_dropLast member)⟩
    rw [List.length_dropLast]
    omega
  refine ⟨fun _ => ?_, fun _ => ?_⟩
  · rw [wp_ite, wp_pure, wp_bind]
    refine ⟨fun _ => ?_, fun _ => shortened⟩
    apply wp_any
    intro _ _
    exact shortened
  rw [wp_ite, wp_pure]
  refine ⟨fun _ => ⟨short, free⟩, fun room => ?_⟩
  have extended : LineWithin maxLength (current.2 ++ [unit]) := by
    refine ⟨?_, ?_⟩
    · rw [List.length_append, List.length_singleton]
      omega
    · simp [free, Ne.symm nonzero]
  have stores : ∀ reached : Machine σ, wp (do
      let grown ← orOverrun (push maxLength current.2 unit)
      return (.inl (some unit, grown) : (Option CHAR16 × Text) ⊕ (Int32 × Memory)))
      (fun outcome _ => RoundRead maxLength outcome) (fun _ => True) reached := by
    intro reached
    rw [wp_bind, wp_orOverrun, push_room short]
    exact ⟨fun _ stored => (by cases stored; exact extended), fun _ => trivial⟩
  rw [wp_ite]
  refine ⟨fun _ => ?_, fun _ => stores typed⟩
  rw [wp_bind]
  apply wp_any
  intro _ reached
  exact stores reached

/-- A line that is read fits into its buffer with its terminator. Nothing is stored without a
console. -/
theorem terminalReadLine_returns (fw : Firmware σ) {fuel maxLength : Nat} (room : 0 < maxLength)
    (result : Int32 × Memory) (returned : Returns (terminalReadLine fw fuel maxLength) result) :
    LineRead maxLength result := by
  revert result
  apply returns_of_wp
  intro machine
  exact wp_iterate .outOfFuel (readLineRound fw maxLength)
    (fun current _ => LineWithin maxLength current.2) _ _ trivial
    (fun current state within => wp_readLineRound fw within state) fuel (none, []) machine
    ⟨room, List.not_mem_nil⟩

/-! ## Composition of the console -/

section Composition

variable {fw : Firmware σ} {reasons : Stop → Prop} {further : (α : Type) → Routine σ α → Prop}

/-- Writing only calls the firmware, once, and stops where the text has no end. -/
theorem composed_terminalPut {beyond : Stop} {memory : Memory}
    (ends : (0 : CHAR16) ∈ memory ∨ reasons beyond) :
    Composed fw reasons further (terminalPut fw beyond memory) := by
  apply Composed.view (fun _ _ => rfl)
  intro machine
  apply Composed.ite
  · intro _
    have read : Composed fw reasons further (orStop beyond (scan memory)) :=
      Composed.orStop fun unread =>
        ends.elim (fun ends => absurd unread (scan_ends ends)) Or.inr
    apply Composed.bind read
    intro shown
    exact Composed.bind (Composed.outputString shown) (fun _ => Composed.pure ())
  · intro _
    exact Composed.pure ()

/-- Writing a string is a quiet step. A string without a terminator overruns. -/
theorem composed_terminalWrite {memory : Memory} (ends : (0 : CHAR16) ∈ memory ∨ reasons .overrun) :
    Composed fw reasons further (terminalWrite fw memory) := composed_terminalPut ends

/-- Writing a field is a quiet step. A field without a terminator is a fault. -/
theorem composed_terminalWriteField {memory : Memory}
    (ends : (0 : CHAR16) ∈ memory ∨ reasons .fault) :
    Composed fw reasons further (terminalWriteField fw memory) := composed_terminalPut ends

/-- A local text is written with its terminator. -/
theorem composed_written (text : Text) :
    Composed fw reasons further (terminalWrite fw (text ++ [0])) :=
  composed_terminalWrite (Or.inl (by simp))

/-- Writing a line is made of quiet steps. A string without a terminator overruns. -/
theorem composed_terminalWriteLine {memory : Memory}
    (ends : (0 : CHAR16) ∈ memory ∨ reasons .overrun) :
    Composed fw reasons further (terminalWriteLine fw memory) :=
  Composed.bind (composed_terminalWrite ends)
    (fun _ => composed_written [carriageReturn, lineFeed])

/-- Writing a field on its own line is made of quiet steps. A field without a terminator is a
fault. -/
theorem composed_terminalWriteFieldLine {memory : Memory}
    (ends : (0 : CHAR16) ∈ memory ∨ reasons .fault) :
    Composed fw reasons further (terminalWriteFieldLine fw memory) :=
  Composed.bind (composed_terminalWriteField ends)
    (fun _ => composed_written [carriageReturn, lineFeed])

/-- One round of reading only calls the firmware and stores within the line. -/
theorem composed_readLineRound {maxLength : Nat} {current : Option CHAR16 × Text}
    (within : LineWithin maxLength current.2) :
    Composed fw reasons further (readLineRound fw maxLength current) := by
  have stores : ∀ unit : CHAR16, Composed fw reasons further
      (orOverrun (push maxLength current.2 unit)) := by
    intro unit
    rw [push_room within.1]
    exact Composed.pure _
  apply Composed.view (fun _ _ => rfl)
  intro machine
  apply Composed.ite
  · intro _
    apply Composed.bind Composed.readKeyStroke
    intro stroke
    apply Composed.bind (Composed.orStop fun _ => Or.inl rfl)
    intro unit
    apply Composed.ite (fun _ => Composed.pure _)
    intro _
    apply Composed.ite
    · intro _
      exact Composed.bind (composed_written [carriageReturn, lineFeed])
        (fun _ => Composed.bind (stores 0) (fun _ => Composed.pure _))
    intro _
    apply Composed.ite
    · intro _
      apply Composed.ite
      · intro _
        exact Composed.bind (composed_written [backspace, space, backspace])
          (fun _ => Composed.pure _)
      · intro _
        exact Composed.pure _
    · intro _
      apply Composed.ite (fun _ => Composed.pure _)
      intro _
      apply Composed.ite
      · intro _
        exact Composed.bind (composed_written [unit])
          (fun _ => Composed.bind (stores unit) (fun _ => Composed.pure _))
      · intro _
        exact Composed.bind (stores unit) (fun _ => Composed.pure _)
  · intro _
    exact Composed.pure _

/-- Every round finds a line that fits and leaves one. -/
theorem composed_terminalReadLine (exhausted : reasons .outOfFuel) (fuel : Nat) {maxLength : Nat}
    (room : 0 < maxLength) : Composed fw reasons further (terminalReadLine fw fuel maxLength) := by
  have restored : ∀ current next, LineWithin maxLength current.2 →
      Returns (readLineRound fw maxLength current) (.inl next) → LineWithin maxLength next.2 := by
    intro current next within returned
    exact returns_of_wp (Q := RoundRead maxLength)
      (fun machine => wp_readLineRound fw within machine) (.inl next) returned
  have entered : LineWithin maxLength [] := ⟨room, List.not_mem_nil⟩
  exact Composed.iterate_invariant (fun current => LineWithin maxLength current.2) exhausted
    (fun _ within => composed_readLineRound within) restored fuel (none, []) entered

end Composition

end ExistentOS.Terminal
