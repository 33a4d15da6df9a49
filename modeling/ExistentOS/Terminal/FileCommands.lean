import ExistentOS.Terminal.Console
import ExistentOS.Terminal.Parsing

/-!
# File commands

The functions behind `cat`, `touch`, `rm`, `write`, `append` and `source`. They
report success as the source does; the interpreter prints a usage line otherwise.
A script hands its lines to the interpreter, which is a parameter here.
-/

namespace ExistentOS.Terminal

open Programs Terminated

variable {σ : Type} (fw : Firmware σ)

/-- `terminal_open_file`. The root is closed as soon as `Open` has answered, and a success with a
null file counts as a failure. -/
def terminalOpenFile (path : Memory) (mode attributes : UInt64) : Routine σ (Option Handle) :=
  openOnVolume fw path mode attributes

/-- The modes in which the commands open a file. This one is for a file that is there already. -/
def updateMode : UInt64 := efiFileModeRead ||| efiFileModeWrite

/-- The mode in which a file is opened that need not exist before. -/
def createMode : UInt64 := efiFileModeRead ||| efiFileModeWrite ||| efiFileModeCreate

/-- `sizeof(bytes)` in `terminal_cat_file`. A read that fills it is followed by another one. -/
def catBufferSize : Nat := 120

/-- `sizeof(bytes)` of `terminal_source_file`. The last byte is never read into. -/
def scriptBufferSize : Nat := 4096

/-- As many bytes from the start of a buffer as a read has reported. -/
def reported (buffer : List UInt8) (size : Nat) : Option (List UInt8) :=
  if size ≤ buffer.length then some (buffer.take size) else none

/-- What it means to read up to a reported size behind the stored bytes: they are unset as far as
the buffer goes. -/
def behindStored (capacity size : Nat) : Stop := if size ≤ capacity then .unset else .overrun

/-- `if (count) terminal_write(text)`, where the text is cut off by the first zero. -/
def showBytes (bytes : List UInt8) : Routine σ Unit :=
  if bytes ≠ [] then terminalWrite fw (bytes.map (·.toUInt16) ++ [0]) else return ()

/-- One round of the loop of `terminal_cat_file`. Of the buffer, only the bytes that
a read has stored are known. -/
def catRound (file : Handle) (buffer : List UInt8) : Routine σ (List UInt8 ⊕ Bool) := do
  let answer ← readFile fw file catBufferSize
  if efiError answer.status then
    let _ ← closeFile fw file
    return .inr false
  else
    let stored := answer.bytes ++ buffer.drop answer.bytes.length
    showBytes fw (← orStop (behindStored catBufferSize answer.size)
      (reported stored answer.size))
    if answer.size = catBufferSize then return .inl stored
    let _ ← closeFile fw file
    terminalWriteLine fw [0]
    return .inr true

/-- `terminal_cat_file`, with the number of reads it may make. The source goes on as long as
reads fill the buffer. -/
def terminalCatFile (fuel : Nat) (path : Memory) : Routine σ Bool := do
  match ← terminalOpenFile fw path efiFileModeRead 0 with
  | none => return false
  | some file => iterate .outOfFuel (catRound fw file) fuel []

/-- `terminal_touch_file`. Opening the file is all that creates it. -/
def terminalTouchFile (path : Memory) : Routine σ Bool := do
  match ← terminalOpenFile fw path createMode efiFileArchive with
  | none => return false
  | some file =>
    let _ ← closeFile fw file
    return true

/-- `terminal_remove_file`. The handle is not closed, as `Delete` has closed it. -/
def terminalRemoveFile (path : Memory) : Routine σ Bool := do
  match ← terminalOpenFile fw path updateMode 0 with
  | none => return false
  | some file =>
    let status ← deleteFile fw file
    return !efiError status

/-- Store the units of a word as bytes, while two more bytes fit. -/
def storeUnits (bytes : List UInt8) : Memory → Option (List UInt8)
  | [] => none
  | unit :: rest =>
    if unit ≠ 0 ∧ bytes.length + 2 < terminalMaxLine then do
      let grown ← push terminalMaxLine bytes unit.toUInt8
      storeUnits grown rest
    else some bytes

/-- A word is stored up to its terminator only. -/
theorem storeUnits_reads (bytes : List UInt8) : ReadsString (storeUnits bytes) := by
  intro text rest free
  induction text generalizing bytes with
  | nil => simp [storeUnits]
  | cons unit tail ih =>
    have tailFree : (0 : CHAR16) ∉ tail := fun member => free (List.mem_cons_of_mem unit member)
    simp only [List.cons_append, storeUnits]
    split
    · simp only [ih _ tailFree]
    · rfl

/-- The words of a line from a place on, joined by spaces. -/
def storeWords (bytes : List UInt8) (separate : Bool) : List Memory → Option (List UInt8)
  | [] => some bytes
  | word :: rest =>
    if bytes.length + 2 < terminalMaxLine then do
      let separated ← if separate then push terminalMaxLine bytes space.toUInt8 else some bytes
      let stored ← storeUnits separated word
      storeWords stored true rest
    else some bytes

/-- Where the same strings are found, the same is stored. -/
theorem storeWords_same (bytes : List UInt8) (separate : Bool) {stored : List Memory}
    {texts : List Text} (found : List.Forall₂ (fun word text => scan word = some text) stored texts) :
    storeWords bytes separate stored = storeWords bytes separate (texts.map (· ++ [0])) := by
  induction found generalizing bytes separate with
  | nil => rfl
  | cons readable _ ih =>
    simp only [List.map_cons, storeWords, (storeUnits_reads _).same readable, ih]

/-- The part of `terminal_write_file` that stores the words at the position of the handle. -/
def storeHere (file : Handle) (stored : List Memory) : Routine σ Bool := do
  let bytes ← orOverrun (storeWords [] false stored)
  let line ← orOverrun (push terminalMaxLine bytes lineFeed.toUInt8)
  let written ← writeFile fw file line
  if efiError written.1 then
    let _ ← closeFile fw file
    return false
  else
    flushFile fw file
    let _ ← closeFile fw file
    return true

/-- The part of `terminal_write_file` behind the opening of the file. -/
def storeInto (file : Handle) (stored : List Memory) (append : Bool) : Routine σ Bool := do
  let positioned ← setPosition fw file (if append then 0xFFFFFFFFFFFFFFFF else 0)
  if ¬ append ∧ efiError positioned then
    let _ ← closeFile fw file
    return false
  else storeHere fw file stored

/-- `terminal_write_file`, for the words that are to be stored. What the file held behind them is
not cut off. -/
def terminalWriteFile (path : Memory) (stored : List Memory) (append : Bool) : Routine σ Bool := do
  match ← terminalOpenFile fw path createMode efiFileArchive with
  | none => return false
  | some file => storeInto fw file stored append

/-- The loop of `terminal_source_file` over the bytes of the script, with the line so
far. -/
def runLines (execute : Memory → Routine σ Bool) (line : Text) : List UInt8 → Routine σ Unit
  | [] => do
    if line ≠ [] then
      let command ← orOverrun (push terminalMaxLine line 0)
      let _ ← execute command
      return ()
    else return ()
  | byte :: rest => do
    if byte = carriageReturn.toUInt8 then runLines execute line rest
    else if byte = lineFeed.toUInt8 then do
      let command ← orOverrun (push terminalMaxLine line 0)
      if line ≠ [] then
        let _ ← execute command
        runLines execute [] rest
      else runLines execute [] rest
    else if line.length + 1 < terminalMaxLine then do
      let grown ← orOverrun (push terminalMaxLine line byte.toUInt16)
      runLines execute grown rest
    else runLines execute line rest

/-- `terminal_source_file`. The file is read once and closed before its first line is run. -/
def terminalSourceFile (execute : Memory → Routine σ Bool) (path : Memory) : Routine σ Bool := do
  match ← terminalOpenFile fw path efiFileModeRead 0 with
  | none => return false
  | some file =>
    let answer ← readFile fw file (scriptBufferSize - 1)
    let _ ← closeFile fw file
    if efiError answer.status then return false
    else
      runLines execute [] (← orStop (behindStored scriptBufferSize answer.size)
        (reported answer.bytes answer.size))
      return true

/-! ## Paths -/

/-- A path is read up to its terminator only. -/
theorem terminalOpenFile_reads (mode attributes : UInt64) :
    ReadsString fun path => terminalOpenFile fw path mode attributes := by
  intro text rest free
  simp only [terminalOpenFile, openOnVolume, scan_reads text rest free]

/-- `cat` reads its path up to the terminator only. -/
theorem terminalCatFile_reads (fuel : Nat) : ReadsString (terminalCatFile fw fuel) :=
  (terminalOpenFile_reads fw efiFileModeRead 0).comp (· >>= _)

/-- `touch` reads its path up to the terminator only. -/
theorem terminalTouchFile_reads : ReadsString (terminalTouchFile fw) :=
  (terminalOpenFile_reads fw createMode efiFileArchive).comp (· >>= _)

/-- `rm` reads its path up to the terminator only. -/
theorem terminalRemoveFile_reads : ReadsString (terminalRemoveFile fw) :=
  (terminalOpenFile_reads fw updateMode 0).comp (· >>= _)

/-- `write` and `append` read their path up to the terminator only. -/
theorem terminalWriteFile_reads (stored : List Memory) (append : Bool) :
    ReadsString fun path => terminalWriteFile fw path stored append :=
  (terminalOpenFile_reads fw createMode efiFileArchive).comp (· >>= _)

/-- `source` reads its path up to the terminator only. -/
theorem terminalSourceFile_reads (execute : Memory → Routine σ Bool) :
    ReadsString (terminalSourceFile fw execute) :=
  (terminalOpenFile_reads fw efiFileModeRead 0).comp (· >>= _)

/-! ## Composition of the file commands -/

section Composition

variable {fw : Firmware σ} {reasons : Stop → Prop} {further : (α : Type) → Routine σ α → Prop}

/-- The firmware never reports more bytes than it was asked for. -/
def ReportsWithin (fw : Firmware σ) : Prop :=
  ∀ file size state, (fw.read file size state).1.size ≤ size

/-- Opening a path is made of quiet steps. A path without a terminator overruns. -/
theorem composed_terminalOpenFile {path : Memory} (ends : (0 : CHAR16) ∈ path ∨ reasons .overrun)
    (mode attributes : UInt64) :
    Composed fw reasons further (terminalOpenFile fw path mode attributes) :=
  Composed.openOnVolume path mode attributes ends

/-- What a read reports lies within the buffer that it was given. -/
theorem readFile_reports (within : ReportsWithin fw) (file : Handle) (size : Nat)
    (answer : ReadAnswer) (returned : Returns (readFile fw file size) answer) :
    answer.size ≤ size := by
  revert answer
  apply returns_of_wp
  intro machine
  rw [readFile, wp_bind, wp_call, wp_ite]
  exact ⟨fun _ => within file size machine.firmware, fun _ => trivial⟩

/-- The bytes up to the reported size are stored, or unset, unless the buffer may be left. -/
theorem composed_reported {capacity size : Nat} (buffer : List UInt8)
    (inside : size ≤ capacity ∨ reasons .overrun) :
    Composed fw reasons further (orStop (behindStored capacity size) (reported buffer size)) := by
  apply Composed.orStop
  intro _
  by_cases fits : size ≤ capacity
  · rw [behindStored, if_pos fits]
    exact Or.inl rfl
  · rw [behindStored, if_neg fits]
    exact Or.inr (inside.resolve_left fits)

section Reads

variable (within : ReportsWithin fw ∨ reasons .overrun)
include within

/-- A round of `cat` only calls the firmware. -/
theorem composed_catRound (file : Handle) (buffer : List UInt8) :
    Composed fw reasons further (catRound fw file buffer) := by
  apply Composed.sequence (Composed.readFile file catBufferSize)
  intro answer returned
  apply Composed.ite
  · intro _
    exact Composed.bind (Composed.closeFile file) (fun _ => Composed.pure _)
  · intro _
    have inside := within.imp_left fun within => readFile_reports within file catBufferSize answer
      returned
    apply Composed.bind (composed_reported _ inside)
    intro bytes
    apply Composed.bind
    · exact Composed.ite (fun _ => composed_written _) (fun _ => Composed.pure ())
    · intro _
      apply Composed.ite (fun _ => Composed.pure _)
      intro _
      apply Composed.bind (Composed.closeFile file)
      intro _
      exact Composed.bind (composed_terminalWriteLine (Or.inl (by simp)))
        (fun _ => Composed.pure _)

/-- `cat` is made of quiet steps, and may use up the fuel of its loop. -/
theorem composed_terminalCatFile (exhausted : reasons .outOfFuel) (fuel : Nat) {path : Memory}
    (ends : (0 : CHAR16) ∈ path ∨ reasons .overrun) :
    Composed fw reasons further (terminalCatFile fw fuel path) := by
  apply Composed.bind (composed_terminalOpenFile ends efiFileModeRead 0)
  intro opened
  cases opened with
  | none => exact Composed.pure false
  | some file => exact Composed.iterate exhausted (composed_catRound within file) fuel []

end Reads

/-- `touch` is made of quiet steps. -/
theorem composed_terminalTouchFile {path : Memory} (ends : (0 : CHAR16) ∈ path ∨ reasons .overrun) :
    Composed fw reasons further (terminalTouchFile fw path) := by
  apply Composed.bind (composed_terminalOpenFile ends createMode efiFileArchive)
  intro opened
  cases opened with
  | none => exact Composed.pure false
  | some file => exact Composed.bind (Composed.closeFile file) (fun _ => Composed.pure true)

/-- Units are stored up to a terminator, and the line end fits behind them. -/
theorem storeUnits_ends (bytes : List UInt8) (memory : Memory) (ends : (0 : CHAR16) ∈ memory)
    (room : bytes.length + 1 < terminalMaxLine) :
    ∃ stored, storeUnits bytes memory = some stored ∧ stored.length + 1 < terminalMaxLine := by
  induction memory generalizing bytes with
  | nil => exact absurd ends List.not_mem_nil
  | cons unit rest ih =>
    rw [storeUnits]
    by_cases more : unit ≠ 0 ∧ bytes.length + 2 < terminalMaxLine
    · rw [if_pos more, push_room (by omega), Option.bind_eq_bind, Option.bind_some]
      apply ih _ ((List.mem_cons.mp ends).resolve_left (Ne.symm more.1))
      rw [List.length_append, List.length_singleton]
      exact more.2
    · rw [if_neg more]
      exact ⟨bytes, rfl, room⟩

/-- Terminated words are stored, and the line end fits behind them. -/
theorem storeWords_ends (bytes : List UInt8) (separate : Bool) (stored : List Memory)
    (ends : ∀ word ∈ stored, (0 : CHAR16) ∈ word) (room : bytes.length + 1 < terminalMaxLine) :
    ∃ line, storeWords bytes separate stored = some line ∧ line.length + 1 < terminalMaxLine := by
  induction stored generalizing bytes separate with
  | nil => exact ⟨bytes, rfl, room⟩
  | cons word rest ih =>
    rw [storeWords]
    have continued (separated : List UInt8) (within : separated.length + 1 < terminalMaxLine) :
        ∃ line, (storeUnits separated word >>= fun grown => storeWords grown true rest) =
          some line ∧ line.length + 1 < terminalMaxLine := by
      obtain ⟨grown, units, grownWithin⟩ :=
        storeUnits_ends separated word (ends word List.mem_cons_self) within
      rw [units]
      exact ih grown true (fun later member => ends later (List.mem_cons_of_mem word member))
        grownWithin
    by_cases more : bytes.length + 2 < terminalMaxLine
    · rw [if_pos more]
      cases separate with
      | true =>
        rw [if_pos rfl, push_room (by omega)]
        refine continued _ ?_
        rw [List.length_append, List.length_singleton]
        exact more
      | false => exact continued bytes room
    · rw [if_neg more]
      exact ⟨bytes, rfl, room⟩

section Updates

variable (files : ∀ (α : Type) (routine : Routine σ α), FileStep fw α routine → further α routine)
include files

/-- `rm` is made of quiet steps and of one deletion. -/
theorem composed_terminalRemoveFile {path : Memory} (ends : (0 : CHAR16) ∈ path ∨ reasons .overrun) :
    Composed fw reasons further (terminalRemoveFile fw path) := by
  apply Composed.bind (composed_terminalOpenFile ends updateMode 0)
  intro opened
  cases opened with
  | none => exact Composed.pure false
  | some file =>
    exact Composed.bind (Composed.further (files _ _ (FileStep.deleteFile file)))
      (fun _ => Composed.pure _)

variable {stored : List Memory} (ends : (∀ word ∈ stored, (0 : CHAR16) ∈ word) ∨ reasons .overrun)
include ends

/-- Storing words is made of quiet steps and of one write. -/
theorem composed_storeHere (file : Handle) :
    Composed fw reasons further (storeHere fw file stored) := by
  have within : (∃ bytes, storeWords [] false stored = some bytes ∧
      bytes.length + 1 < terminalMaxLine) ∨ reasons .overrun :=
    ends.imp_left fun ends => storeWords_ends [] false stored ends (by decide)
  apply Composed.orStop_bind
  · intro unread
    refine within.elim ?_ Or.inr
    rintro ⟨bytes, found, _⟩
    rw [found] at unread
    cases unread
  intro bytes found
  apply Composed.bind
  · apply Composed.orStop
    intro full
    refine within.elim ?_ Or.inr
    rintro ⟨_, same, room⟩
    obtain rfl := Option.some.inj (same.symm.trans found)
    rw [push_room (by omega)] at full
    cases full
  intro line
  apply Composed.bind (Composed.further (files _ _ (FileStep.writeFile file _)))
  intro written
  apply Composed.ite
  · intro _
    exact Composed.bind (Composed.closeFile file) (fun _ => Composed.pure false)
  · intro _
    apply Composed.bind (Composed.flushFile file)
    intro _
    exact Composed.bind (Composed.closeFile file) (fun _ => Composed.pure true)

/-- What is left to do after the positioning. -/
theorem composed_storePositioned (file : Handle) (append : Bool) (positioned : EfiStatus) :
    Composed fw reasons further (if ¬ append ∧ efiError positioned then do
        let _ ← closeFile fw file
        return false
      else storeHere fw file stored) := by
  apply Composed.ite
  · intro _
    exact Composed.bind (Composed.closeFile file) (fun _ => Composed.pure false)
  · intro _
    exact composed_storeHere files ends file

/-- Storing words behind the positioning of the file. -/
theorem composed_storeInto (file : Handle) (append : Bool) :
    Composed fw reasons further (storeInto fw file stored append) :=
  Composed.bind (Composed.setPosition file _) (composed_storePositioned files ends file append)

/-- `write` and `append` are made of quiet steps and of one write. -/
theorem composed_terminalWriteFile {path : Memory} (pathEnds : (0 : CHAR16) ∈ path ∨ reasons .overrun)
    (append : Bool) : Composed fw reasons further (terminalWriteFile fw path stored append) := by
  apply Composed.bind (composed_terminalOpenFile pathEnds createMode efiFileArchive)
  intro opened
  cases opened with
  | none => exact Composed.pure false
  | some file => exact composed_storeInto files ends file append

end Updates

section Scripts

variable {execute : Memory → Routine σ Bool}
  (inner : ∀ line : Text, Composed fw reasons further (execute (line ++ [0])))
include inner

/-- The lines of a script are handed on with their terminators.

Induct over the bytes that are left. The line so far leaves room for its terminator. -/
theorem composed_runLines (line : Text) (bytes : List UInt8) (room : line.length < terminalMaxLine) :
    Composed fw reasons further (runLines execute line bytes) := by
  have empty : ([] : Text).length < terminalMaxLine := by decide
  induction bytes generalizing line with
  | nil =>
    apply Composed.ite
    · intro _
      rw [push_room room]
      have handed : Composed fw reasons further (do
          let _ ← execute (line ++ [0])
          return ()) := Composed.bind (inner line) (fun _ => Composed.pure ())
      exact handed
    · intro _
      exact Composed.pure ()
  | cons byte rest ih =>
    apply Composed.ite (fun _ => ih line room)
    intro _
    apply Composed.ite
    · intro _
      rw [push_room room]
      apply Composed.ite
      · intro _
        exact Composed.bind (inner line) (fun _ => ih [] empty)
      · intro _
        exact ih [] empty
    · intro _
      apply Composed.ite
      · intro more
        rw [push_room room]
        apply ih
        rw [List.length_append, List.length_singleton]
        exact more
      · intro _
        exact ih line room

/-- A script is composed of its calls and of the lines that it runs. -/
theorem composed_terminalSourceFile (within : ReportsWithin fw ∨ reasons .overrun) {path : Memory}
    (ends : (0 : CHAR16) ∈ path ∨ reasons .overrun) :
    Composed fw reasons further (terminalSourceFile fw execute path) := by
  apply Composed.bind (composed_terminalOpenFile ends efiFileModeRead 0)
  intro opened
  cases opened with
  | none => exact Composed.pure false
  | some file =>
    apply Composed.sequence (Composed.readFile file _)
    intro answer returned
    apply Composed.bind (Composed.closeFile file)
    intro _
    apply Composed.ite (fun _ => Composed.pure false)
    intro _
    have inside : answer.size ≤ scriptBufferSize ∨ reasons .overrun :=
      within.imp_left fun within => Nat.le_trans (readFile_reports within file _ answer returned)
        (Nat.sub_le scriptBufferSize 1)
    apply Composed.bind (composed_reported _ inside)
    intro bytes
    exact Composed.bind (composed_runLines inner [] bytes (by decide)) (fun _ => Composed.pure true)

end Scripts

end Composition

end ExistentOS.Terminal
