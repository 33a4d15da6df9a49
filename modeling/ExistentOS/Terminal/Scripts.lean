import ExistentOS.Library.Runs
import ExistentOS.Terminal.Shell

/-!
# The two script runners

`terminal_source_file` collects the units of a line until a line feed and skips carriage
returns; `terminal_run_batch_file` scans to the next line end and then skips a run of them. Both
run the non-empty lines of a script in order, as long as the script fits the buffer and each of
its lines fits the line buffer. What does not fit is cut off.
-/

namespace ExistentOS.Terminal

open Programs Terminated Runs

variable {σ : Type} {fw : Firmware σ}

/-! ## Lines -/

/-- A line feed ends the lines of a file. Carriage returns are skipped before. -/
def isLineFeed (unit : CHAR16) : Bool := unit = lineFeed

/-- The units of a file: its bytes other than carriage returns. -/
def scriptUnits (bytes : List UInt8) : Text :=
  (bytes.filter (· ≠ carriageReturn.toUInt8)).map (·.toUInt16)

/-- The non-empty lines of a file. Between two line feeds in a row there is none. -/
def scriptLines (bytes : List UInt8) : List Text := runs isLineFeed (scriptUnits bytes)

/-- The part of a line that the line buffer has room for, with its terminator. -/
def cutLine (line : Text) : Text := line.take (terminalMaxLine - 1)

/-- A line that is cut leaves room for its terminator. -/
theorem cutLine_length (line : Text) : (cutLine line).length < terminalMaxLine :=
  Nat.lt_of_le_of_lt (List.length_take_le _ line) (by decide)

/-- Lines that fit the line buffer are not cut. -/
theorem map_cutLine {lines : List Text} (short : ∀ line ∈ lines, line.length < terminalMaxLine) :
    lines.map cutLine = lines := by
  have whole : ∀ line ∈ lines, cutLine line = line := fun line member =>
    List.take_of_length_le (Nat.le_sub_one_of_lt (short line member))
  rw [List.map_congr_left whole]
  exact List.map_id' lines

/-- Hand lines to an interpreter one after the other, each behind the same preparation. -/
def runEach (prepare : Routine σ Unit) (execute : Memory → Routine σ Bool) (lines : List Text) :
    Routine σ Unit :=
  lines.forM fun line => do
    prepare
    let _ ← execute (line ++ [0])
    return ()

/-- The first line is run, and then the others. -/
theorem runEach_cons (prepare : Routine σ Unit) (execute : Memory → Routine σ Bool) (line : Text)
    (rest : List Text) : runEach prepare execute (line :: rest) = (do
      prepare
      let _ ← execute (line ++ [0])
      runEach prepare execute rest) := by
  simp only [runEach, List.forM, bind_assoc, pure_bind]

/-- The lines of a list are run one after the other. -/
theorem runEach_append (prepare : Routine σ Unit) (execute : Memory → Routine σ Bool)
    (lines others : List Text) : runEach prepare execute (lines ++ others) = (do
      runEach prepare execute lines
      runEach prepare execute others) := List.forM_append

/-! ## Files -/

/-- Carriage returns are skipped, wherever they stand. -/
theorem scriptUnits_return (rest : List UInt8) :
    scriptUnits (carriageReturn.toUInt8 :: rest) = scriptUnits rest := by
  rw [scriptUnits, List.filter_cons_of_neg (by simp), ← scriptUnits]

/-- Other bytes are widened, as the source stores a byte in a unit. -/
theorem scriptUnits_byte {byte : UInt8} (other : byte ≠ carriageReturn.toUInt8) (rest : List UInt8) :
    scriptUnits (byte :: rest) = byte.toUInt16 :: scriptUnits rest := by
  rw [scriptUnits, List.filter_cons_of_pos (by simpa using other), List.map_cons, ← scriptUnits]

/-- Widening a byte makes no line feed, so lines may be cut before the widening or behind it. -/
theorem isLineFeed_widened {byte : UInt8} (other : byte ≠ lineFeed.toUInt8) :
    isLineFeed byte.toUInt16 = false := by
  rw [isLineFeed, decide_eq_false_iff_not]
  intro widened
  have same : byte.toUInt16.toUInt8 = lineFeed.toUInt8 := congrArg UInt16.toUInt8 widened
  exact other ((UInt8.toUInt8_toUInt16 byte).symm.trans same)

/-- Where the lines of a file end, the line so far is run unless it is empty. -/
theorem runEach_flush (execute : Memory → Routine σ Bool) {seen : Text}
    (free : ∀ unit ∈ seen, isLineFeed unit = false) (rest : List Text) :
    runEach (pure ()) execute ((runs isLineFeed seen).map cutLine ++ rest) = (do
      let command ← orOverrun (push terminalMaxLine (cutLine seen) 0)
      if cutLine seen ≠ [] then
        let _ ← execute command
        runEach (pure ()) execute rest
      else runEach (pure ()) execute rest) := by
  rw [push_room (cutLine_length seen), orOverrun, orStop, pure_bind]
  by_cases empty : seen = []
  · subst empty
    rfl
  · have cut : cutLine seen ≠ [] := by simpa [cutLine, terminalMaxLine] using empty
    rw [if_pos cut, runs_single isLineFeed empty free, List.map_singleton, List.singleton_append,
      runEach_cons, pure_bind]

/-- From a line so far, which is cut already, the loop runs the lines of what is left, cut. -/
theorem runLines_eq (execute : Memory → Routine σ Bool) {seen : Text}
    (free : ∀ unit ∈ seen, isLineFeed unit = false) (bytes : List UInt8) :
    runLines execute (cutLine seen) bytes = runEach (pure ()) execute
      ((runs isLineFeed (seen ++ scriptUnits bytes)).map cutLine) := by
  induction bytes generalizing seen with
  | nil =>
    have flushed := runEach_flush execute free []
    rw [push_room (cutLine_length seen), orOverrun, orStop, pure_bind, List.append_nil] at flushed
    have none : scriptUnits [] = [] := rfl
    rw [none, List.append_nil, flushed, runLines, push_room (cutLine_length seen)]
    rfl
  | cons byte rest ih =>
    rw [runLines]
    by_cases skipped : byte = carriageReturn.toUInt8
    · subst skipped
      rw [if_pos rfl, scriptUnits_return, ih free]
    rw [if_neg skipped, scriptUnits_byte skipped]
    by_cases ending : byte = lineFeed.toUInt8
    · subst ending
      have ends : isLineFeed lineFeed.toUInt8.toUInt16 = true := rfl
      have nothing : ∀ unit ∈ ([] : Text), isLineFeed unit = false :=
        fun _ none => absurd none List.not_mem_nil
      have fresh : runLines execute [] rest =
          runEach (pure ()) execute ((runs isLineFeed (scriptUnits rest)).map cutLine) := ih nothing
      rw [if_pos rfl, runs_append_cons isLineFeed seen ends, List.map_append,
        runEach_flush execute free, fresh]
    · have unit : isLineFeed byte.toUInt16 = false := isLineFeed_widened ending
      have grownFree : ∀ unit ∈ seen ++ [byte.toUInt16], isLineFeed unit = false := by
        intro other member
        rcases List.mem_append.mp member with earlier | last
        · exact free other earlier
        · rw [List.mem_singleton.mp last, unit]
      have grown := ih grownFree
      rw [List.append_assoc, List.singleton_append] at grown
      rw [if_neg ending, ← grown]
      by_cases room : (cutLine seen).length + 1 < terminalMaxLine
      · have short : seen.length < terminalMaxLine - 1 := by
          rw [cutLine, List.length_take] at room
          omega
        have stored : cutLine (seen ++ [byte.toUInt16]) = cutLine seen ++ [byte.toUInt16] := by
          rw [cutLine, cutLine, List.take_of_length_le short.le,
            List.take_of_length_le (by rw [List.length_append]; exact short)]
        rw [if_pos room, push_room (Nat.lt_of_succ_lt room), stored]
        rfl
      · have full : terminalMaxLine - 1 ≤ seen.length := by
          rw [cutLine, List.length_take] at room
          omega
        have same : cutLine (seen ++ [byte.toUInt16]) = cutLine seen :=
          List.take_append_of_le_length full
        rw [if_neg room, same]

/-- The firmware opens the file of a path and hands back as many bytes from the start of its
content as a read asks for. -/
def Delivers (fw : Firmware σ) (path : Memory) (content : List UInt8) (machine : Machine σ) : Prop :=
  ∃ file opened,
    (terminalOpenFile fw path efiFileModeRead 0).run machine = .ok (some file, opened) ∧
    ∀ size, (fw.read file size opened.firmware).1 =
      ⟨efiSuccess, (content.take size).length, content.take size⟩

/-- `terminal_source_file` reads the file quietly, runs the lines of what its buffer has room
for, cut, and reports success. -/
theorem run_terminalSourceFile (execute : Memory → Routine σ Bool) {path : Memory}
    {content : List UInt8} {machine : Machine σ} (delivers : Delivers fw path content machine) :
    ∃ loaded, OnlyFirmware machine loaded ∧ (∀ R, QuietFrame fw R → R machine loaded) ∧
      (terminalSourceFile fw execute path).run machine = (do
        runEach (pure ()) execute
          ((scriptLines (content.take (scriptBufferSize - 1))).map cutLine)
        return true : Routine σ Bool).run loaded := by
  obtain ⟨file, opened, found, whole⟩ := delivers
  let bytes := content.take (scriptBufferSize - 1)
  let answer := fw.read file (scriptBufferSize - 1) opened.firmware
  let closed := fw.close file answer.2
  let read := opened.called answer.2 (.read file .buffer (scriptBufferSize - 1) answer.1)
  have answered : answer.1 = ⟨efiSuccess, bytes.length, bytes⟩ := whole _
  have within : bytes.length ≤ scriptBufferSize - 1 := List.length_take_le _ content
  have reading : (readFile fw file (scriptBufferSize - 1)).run opened = .ok (answer.1, read) := by
    have called : (call (fw.read file (scriptBufferSize - 1))
        (.read file .buffer (scriptBufferSize - 1))).run opened = .ok (answer.1, read) := rfl
    rw [readFile, run_bind_of_ok called, answered, if_pos within]
    rfl
  have closing : (closeFile fw file).run read =
      .ok (closed.1, read.called closed.2 (.close file closed.1)) := rfl
  refine ⟨read.called closed.2 (.close file closed.1), ?_, ?_, ?_⟩
  · exact ((openOnVolume_onlyFirmware fw path efiFileModeRead 0).related machine _ opened found).then
      ((called_onlyFirmware opened _ _).then (called_onlyFirmware read _ _))
  · intro R quiet
    have opens : Composed fw (fun _ => True) Nothing (terminalOpenFile fw path efiFileModeRead 0) :=
      composed_terminalOpenFile (Or.inr trivial) efiFileModeRead 0
    have reads : Keeps R (readFile fw file (scriptBufferSize - 1)) := QuietFrame.readFile file _
    have closes : Keeps R (closeFile fw file) := QuietFrame.closeFile file
    have early : R machine opened := opens.keepsQuiet.related machine _ opened found
    exact IsTrans.trans _ _ _ early (IsTrans.trans _ _ _
      (reads.related opened _ read reading) (closes.related read _ _ closing))
  · have loaded : reported bytes bytes.length = some bytes := by
      rw [reported, if_pos le_rfl, List.take_length]
    have nothing : ∀ unit ∈ ([] : Text), isLineFeed unit = false :=
      fun _ none => absurd none List.not_mem_nil
    have lines : runLines execute [] bytes = runEach (pure ()) execute
        ((scriptLines bytes).map cutLine) := runLines_eq execute nothing bytes
    rw [terminalSourceFile, run_bind_of_ok found, run_bind_of_ok reading, run_bind_of_ok closing,
      answered, loaded, if_neg (show ¬ efiError efiSuccess = true by decide), orStop, pure_bind, lines]

/-- A volume without faults delivers the content of its files. -/
theorem delivers_volume {File τ : Type} [DecidableEq File] (resolve : Text → File)
    (device : Firmware τ) {path : Memory} {name : Text} (readable : scan path = some name)
    {content : List UInt8} {machine : Machine (Volume File × τ)} (available : machine.canLocate = true)
    (stored : machine.firmware.1.contents (resolve name) = some content)
    (faultless : machine.firmware.1.faults = []) :
    Delivers (Volume.firmware resolve device) path content machine := by
  have working : ∀ calls, (machine.firmware.1.faultAt calls).status = efiSuccess := by
    intro calls
    rw [Volume.faultAt, faultless]
    rfl
  have opens : wp (terminalOpenFile (Volume.firmware resolve device) path efiFileModeRead 0)
      (fun opened after => ∃ file ∈ opened, ∀ size,
        ((Volume.firmware resolve device).read file size after.firmware).1 =
          ⟨efiSuccess, (content.take size).length, content.take size⟩) (fun _ => False) machine := by
    apply Volume.wp_openOnVolume resolve device path name efiFileModeRead 0 readable
    · rintro _ _ _ _ (unavailable | ⟨calls, _, failed⟩ | ⟨missing, _⟩)
      · rw [available] at unavailable
        cases unavailable
      · rw [working calls] at failed
        cases failed
      · rw [stored] at missing
        cases missing
    · intro after file _ fresh _
      have present : after.firmware.1.contents (resolve name) = some content := by
        rw [fresh.contents, Function.update_self, stored, Option.getD_some]
      have spared : after.firmware.1.fault = Fault.absent := by
        rw [Volume.fault, Volume.faultAt, fresh.faults, faultless]
        rfl
      refine ⟨file, rfl, fun size => ?_⟩
      simp [Volume.firmware, fresh.opened, Volume.readPath, spared, present, Fault.absent]
  obtain ⟨_, opened, ran, file, rfl, whole⟩ := (wp_total_iff _ _ _).mp opens
  exact ⟨file, opened, ran, whole⟩

/-! ## Batch texts -/

/-- What a batch file shows in front of a command. -/
def echoPrompt (fw : Firmware σ) : Routine σ Unit := do
  let machine ← get
  if machine.terminal.echoEnabled then
    terminalWrite fw (terminalCurrentPrompt machine.terminal)

/-- The units in front of the first line end are copied, as far as the bound goes. -/
theorem batchLine_piece {piece later : Text} (free : ∀ unit ∈ piece, isLineEnd unit = false)
    (ends : ∀ unit ∈ later.head?, isLineEnd unit = true) :
    batchLine (piece ++ later) = piece.take batchLineBound := by
  have stops : later.takeWhile (!isLineEnd ·) = [] := by
    cases later with
    | nil => rfl
    | cons unit _ => rw [List.takeWhile_cons_of_neg (by simp [ends unit rfl])]
  rw [batchLine, List.takeWhile_append_of_pos (by simpa using free), stops, List.append_nil]

/-- The first line of a text whose lines fit the line buffer fits it. -/
theorem batchLine_fits {start : Text}
    (short : ∀ line ∈ runs isLineEnd start, line.length < terminalMaxLine) :
    (batchLine start).length < terminalMaxLine := by
  obtain ⟨piece, later, rfl, free, ends⟩ := exists_piece isLineEnd start
  rw [batchLine_piece free ends]
  by_cases empty : piece = []
  · subst empty
    decide
  · have first : piece ∈ runs isLineEnd (piece ++ later) :=
      runs_piece isLineEnd empty free ends ▸ List.mem_cons_self
    exact Nat.lt_of_le_of_lt (List.length_take_le' _ piece) (short piece first)

/-- A round of the loop takes the first line off a text if that line fits the line buffer. -/
theorem runs_batchLine {start : Text} (fits : (batchLine start).length < terminalMaxLine) :
    runs isLineEnd start =
      (if batchLine start ≠ [] then [batchLine start] else []) ++ runs isLineEnd (batchRest start) := by
  obtain ⟨piece, later, rfl, free, ends⟩ := exists_piece isLineEnd start
  have cut := batchLine_piece free ends
  by_cases empty : piece = []
  · subst empty
    have none : batchLine ([] ++ later) = [] := cut
    rw [batchRest, none, if_neg (not_not_intro rfl), runs_dropWhile]
    rfl
  · have whole : batchLine (piece ++ later) = piece := by
      rw [cut, List.length_take] at fits
      rw [cut]
      apply List.take_of_length_le
      unfold batchLineBound terminalMaxLine at *
      omega
    rw [batchRest, whole, if_pos empty, List.drop_left, runs_dropWhile]
    exact runs_piece isLineEnd empty free ends

/-- The lines of what a round leaves are lines of the text. -/
theorem runs_batchRest {start line : Text} (fits : (batchLine start).length < terminalMaxLine)
    (member : line ∈ runs isLineEnd (batchRest start)) : line ∈ runs isLineEnd start := by
  rw [runs_batchLine fits]
  exact List.mem_append_right _ member

/-- A round runs the first line behind the prompt. -/
theorem batchRound_eq (execute : Memory → Routine σ Bool) {start : Text} (more : start ≠ [])
    (fits : (batchLine start).length < terminalMaxLine) :
    batchRound fw execute start = (do
      runEach (echoPrompt fw) execute (if batchLine start ≠ [] then [batchLine start] else [])
      return .inl (batchRest start)) := by
  rw [batchRound, if_neg more, if_pos fits]
  by_cases stored : batchLine start ≠ []
  · have empty : runEach (echoPrompt fw) execute [] = pure () := rfl
    rw [if_pos stored, if_pos stored, runEach_cons, empty, echoPrompt]
    simp only [bind_assoc, pure_bind]
    refine bind_congr fun machine => ?_
    by_cases echo : machine.terminal.echoEnabled = true
    · rw [if_pos echo, if_pos echo]
    · rw [if_neg echo, if_neg echo, pure_bind]
  · rw [if_neg stored, if_neg stored]
    rfl

/-- The loop runs the lines of a text in order if they fit the line buffer. -/
theorem iterate_batchRound (execute : Memory → Routine σ Bool) {start : Text} {rounds : Nat}
    (enough : start.length < rounds)
    (short : ∀ line ∈ runs isLineEnd start, line.length < terminalMaxLine) :
    iterate .outOfFuel (batchRound fw execute) rounds start =
      runEach (echoPrompt fw) execute (runs isLineEnd start) := by
  induction rounds generalizing start with
  | zero => exact absurd enough (Nat.not_lt_zero _)
  | succ rounds ih =>
    rw [iterate]
    by_cases done : start = []
    · subst done
      rfl
    · have fits := batchLine_fits short
      have split := runs_batchLine fits
      have fewer : (batchRest start).length < rounds :=
        Nat.lt_of_lt_of_le (batchRest_length start done) (Nat.lt_succ_iff.mp enough)
      have rest := ih fewer fun line member => short line (runs_batchRest fits member)
      rw [batchRound_eq execute done fits, split, runEach_append, ← rest]
      simp only [bind_assoc, pure_bind]

/-- `terminal_run_batch_file` runs the lines of its text in order. -/
theorem terminalRunBatchFile_eq (execute : Memory → Routine σ Bool) {batchData : Memory}
    {units : Text} (readable : scan batchData = some units)
    (short : ∀ line ∈ runs isLineEnd units, line.length < terminalMaxLine) :
    terminalRunBatchFile fw execute batchData =
      runEach (echoPrompt fw) execute (runs isLineEnd units) := by
  rw [terminalRunBatchFile, readable, orOverrun, orStop, pure_bind,
    iterate_batchRound execute (Nat.lt_succ_self units.length) short]

/-! ## Long lines -/

/-- A line is cut into pieces that fit the line buffer; one that fits is left whole. -/
structure Cuts (line : Text) (pieces : List Text) : Prop where
  whole : pieces.flatten = line
  within : ∀ piece ∈ pieces, piece ≠ [] ∧ piece.length < terminalMaxLine
  short : line.length < terminalMaxLine → pieces = [line]

/-- A batch file is passed on: its lines in order, cut where they are too long. -/
def PassesLines (fw : Firmware σ) (batchData : Memory) (units : Text) (machine : Machine σ) : Prop :=
  ∃ pieces, List.Forall₂ Cuts (runs isLineEnd units) pieces ∧
    ∀ execute, (terminalRunBatchFile fw execute batchData).run machine =
      (runEach (echoPrompt fw) execute pieces.flatten).run machine

/-- Every command of an interpreter returns, so that the lines behind it are run. -/
def Returning (execute : Memory → Routine σ Bool) : Prop :=
  ∀ line machine, wp (execute line) (fun _ _ => True) (fun _ => False) machine

/-- The prompt is shown or not, and the routine returns in either case. -/
theorem wp_echoPrompt (machine : Machine σ) :
    wp (echoPrompt fw) (fun _ _ => True) (fun _ => False) machine := by
  obtain ⟨shown, readable⟩ : ∃ shown, scan (terminalCurrentPrompt machine.terminal) = some shown :=
    Option.ne_none_iff_exists'.mp (scan_ends (terminalCurrentPrompt_ends machine.terminal))
  rw [echoPrompt, wp_bind, wp_get, wp_ite, wp_pure]
  refine ⟨fun _ => ?_, fun _ => trivial⟩
  rw [terminalWrite, terminalPut, wp_bind, wp_get, wp_ite, readable, wp_pure]
  refine ⟨fun _ => ?_, fun _ => trivial⟩
  rw [wp_bind, wp_orStop]
  exact ⟨fun _ _ => trivial, fun none => by cases none⟩

variable (fw) in
/-- Lines that are run by an interpreter that returns are all run. -/
theorem wp_runEach {execute : Memory → Routine σ Bool} (returns : Returning execute)
    (lines : List Text) (machine : Machine σ) :
    wp (runEach (echoPrompt fw) execute lines) (fun _ _ => True) (fun _ => False) machine := by
  induction lines generalizing machine with
  | nil => trivial
  | cons line rest ih =>
    rw [runEach_cons, wp_bind]
    apply wp_mono (wp_echoPrompt machine)
    · intro _ prompted _
      rw [wp_bind]
      exact wp_mono (returns (line ++ [0]) prompted) (fun _ after _ => ih after) fun _ stop => stop
    · exact fun _ stop => stop

variable (fw) in
/-- Once a line that does not fit the line buffer is reached, the buffer is left.

Induct over the rounds. The lines in front of it fit and are run. -/
theorem wp_batchRounds_long {execute : Memory → Routine σ Bool} (returns : Returning execute)
    {start : Text} {rounds : Nat} (enough : start.length < rounds)
    (long : ∃ line ∈ runs isLineEnd start, terminalMaxLine ≤ line.length) (machine : Machine σ) :
    wp (iterate .outOfFuel (batchRound fw execute) rounds start) (fun _ _ => False)
      (fun stop => stop = .overrun) machine := by
  induction rounds generalizing start machine with
  | zero => exact absurd enough (Nat.not_lt_zero _)
  | succ rounds ih =>
    have more : start ≠ [] := by
      rintro rfl
      obtain ⟨line, member, _⟩ := long
      exact absurd member List.not_mem_nil
    rw [iterate, wp_bind]
    by_cases fits : (batchLine start).length < terminalMaxLine
    · have fewer : (batchRest start).length < rounds :=
        Nat.lt_of_lt_of_le (batchRest_length start more) (Nat.lt_succ_iff.mp enough)
      have later : ∃ line ∈ runs isLineEnd (batchRest start), terminalMaxLine ≤ line.length := by
        obtain ⟨line, member, exceeds⟩ := long
        rw [runs_batchLine fits] at member
        rcases List.mem_append.mp member with first | rest
        · have same : line = batchLine start := by
            by_cases stored : batchLine start ≠ []
            · rw [if_pos stored] at first
              exact List.mem_singleton.mp first
            · rw [if_neg stored] at first
              exact absurd first List.not_mem_nil
          exact absurd fits (Nat.not_lt.mpr (same ▸ exceeds))
        · exact ⟨line, rest, exceeds⟩
      rw [batchRound_eq execute more fits, wp_bind]
      exact wp_mono (wp_runEach fw returns _ machine) (fun _ after _ => ih fewer later after)
        fun _ stop => stop.elim
    · rw [batchRound, if_neg more, if_neg fits]
      rfl

/-- A line that does not fit the line buffer is copied beyond it. -/
theorem terminalRunBatchFile_long {execute : Memory → Routine σ Bool} (returns : Returning execute)
    {batchData : Memory} {units : Text} (readable : scan batchData = some units)
    (long : ∃ line ∈ runs isLineEnd units, terminalMaxLine ≤ line.length) (machine : Machine σ) :
    (terminalRunBatchFile fw execute batchData).run machine = .error .overrun := by
  have overruns := wp_batchRounds_long fw returns (Nat.lt_succ_self units.length) long machine
  rw [terminalRunBatchFile, readable, run_orOverrun_bind]
  unfold wp at overruns
  split at overruns
  · exact overruns.elim
  · rename_i reason stopped
    rw [stopped, overruns]

/-- A batch file with a line that is too long is not passed on. -/
theorem not_passesLines {batchData : Memory} {units : Text} (readable : scan batchData = some units)
    (long : ∃ line ∈ runs isLineEnd units, terminalMaxLine ≤ line.length) (machine : Machine σ) :
    ¬ PassesLines fw batchData units machine := by
  rintro ⟨pieces, _, passes⟩
  have returns : Returning fun _ => (pure false : Routine σ Bool) := fun _ _ => trivial
  have returned := wp_runEach fw returns pieces.flatten machine
  rw [wp, ← passes, terminalRunBatchFile_long returns readable long machine] at returned
  exact returned

/-- `terminal_run_batch_file` passes the lines of a text on, cut where they are too long, if and
only if none of them is too long. The bound of its loop is counted in bytes and its buffer in
units, so a line that is too long is written behind the buffer. -/
theorem terminalRunBatchFile_passes_iff (fw : Firmware σ) {batchData : Memory} {units : Text}
    (readable : scan batchData = some units) (machine : Machine σ) :
    PassesLines fw batchData units machine ↔
      ∀ line ∈ runs isLineEnd units, line.length ≤ 127 := by
  constructor
  · intro passes line member
    by_contra exceeds
    exact not_passesLines readable ⟨line, member, Nat.lt_of_not_le exceeds⟩ machine passes
  · intro short
    have fits : ∀ line ∈ runs isLineEnd units, line.length < terminalMaxLine :=
      fun line member => Nat.lt_succ_of_le (short line member)
    refine ⟨(runs isLineEnd units).map fun line => [line], ?_, fun execute => ?_⟩
    · rw [List.forall₂_map_right_iff, List.forall₂_same]
      intro line member
      refine ⟨List.flatten_singleton, ?_, fun _ => rfl⟩
      intro piece same
      rw [List.mem_singleton.mp same]
      exact ⟨runs_nonempty isLineEnd member, fits line member⟩
    · have whole : ((runs isLineEnd units).map fun line => [line]).flatten = runs isLineEnd units := by
        rw [← List.flatMap_def, List.flatMap_singleton']
      rw [terminalRunBatchFile_eq execute readable fits, whole]

/-- A batch text of one short line is passed on. -/
theorem terminalRunBatchFile_passes_short :
    PassesLines (Firmware.inert : Firmware Unit) (constant "ls\r\n") (text "ls\r\n")
      (Machine.entered ()) :=
  (terminalRunBatchFile_passes_iff Firmware.inert (by decide) (Machine.entered ())).mpr (by decide)

/-- A batch text of 128 units is not passed on. -/
theorem terminalRunBatchFile_leaves :
    ¬ PassesLines (Firmware.inert : Firmware Unit) (List.replicate 128 0x61 ++ [0])
      (List.replicate 128 0x61) (Machine.entered ()) := by
  have solid : (0 : CHAR16) ∉ List.replicate 128 0x61 :=
    fun member => absurd (List.eq_of_mem_replicate member) (by decide)
  have free : ∀ unit ∈ List.replicate 128 0x61, isLineEnd unit = false :=
    fun unit member => List.eq_of_mem_replicate member ▸ rfl
  have whole : runs isLineEnd (List.replicate 128 0x61) = [List.replicate 128 0x61] :=
    runs_single isLineEnd (List.cons_ne_nil _ _) free
  apply not_passesLines (scan_append _ [] solid)
  exact ⟨_, whole ▸ List.mem_cons_self, (List.length_replicate).ge⟩

/-! ## Agreement -/

/-- Every carriage return is followed by a line feed. Otherwise the two runners would see
different lines. -/
def PairedReturns (bytes : List UInt8) : Prop :=
  ∀ place < bytes.length, bytes[place]? = some carriageReturn.toUInt8 →
    bytes[place + 1]? = some lineFeed.toUInt8

instance (bytes : List UInt8) : Decidable (PairedReturns bytes) :=
  inferInstanceAs (Decidable (∀ place < bytes.length, bytes[place]? = some carriageReturn.toUInt8 →
    bytes[place + 1]? = some lineFeed.toUInt8))

/-- A carriage return in front is followed by a line feed. -/
theorem PairedReturns.head {rest : List UInt8}
    (paired : PairedReturns (carriageReturn.toUInt8 :: rest)) :
    ∃ later, rest = lineFeed.toUInt8 :: later := by
  have following := paired 0 (Nat.succ_pos rest.length) rfl
  rw [List.getElem?_cons_succ, ← List.head?_eq_getElem?] at following
  exact List.head?_eq_some_iff.mp following

/-- What follows a byte is paired if the whole is. -/
theorem PairedReturns.tail {byte : UInt8} {rest : List UInt8}
    (paired : PairedReturns (byte :: rest)) : PairedReturns rest :=
  fun place inside found => paired (place + 1) (Nat.succ_lt_succ inside) found

/-- Widening a byte makes no line end. -/
theorem isLineEnd_widened {byte : UInt8} (noReturn : byte ≠ carriageReturn.toUInt8)
    (noFeed : byte ≠ lineFeed.toUInt8) : isLineEnd byte.toUInt16 = false := by
  rw [isLineEnd, Bool.or_eq_false_iff, decide_eq_false_iff_not]
  constructor
  · intro widened
    have same : byte.toUInt16.toUInt8 = carriageReturn.toUInt8 := congrArg UInt16.toUInt8 widened
    exact noReturn ((UInt8.toUInt8_toUInt16 byte).symm.trans same)
  · exact isLineFeed_widened noFeed

/-- A text without line ends is one line for both runners. -/
theorem runs_unended {seen : Text} (free : ∀ unit ∈ seen, isLineEnd unit = false) :
    runs isLineEnd seen = runs isLineFeed seen := by
  have noFeed : ∀ unit ∈ seen, isLineFeed unit = false := fun unit member =>
    (Bool.or_eq_false_iff.mp (free unit member)).2
  by_cases empty : seen = []
  · subst empty
    rfl
  · rw [runs_single isLineEnd empty free, runs_single isLineFeed empty noFeed]

/-- The lines between line ends are those between line feeds without the carriage returns, if
these are paired. -/
theorem runs_widened {seen : Text} (free : ∀ unit ∈ seen, isLineEnd unit = false)
    {bytes : List UInt8} (paired : PairedReturns bytes) :
    runs isLineEnd (seen ++ bytes.map (·.toUInt16)) =
      runs isLineFeed (seen ++ scriptUnits bytes) := by
  have feed : isLineFeed lineFeed.toUInt8.toUInt16 = true := rfl
  induction bytes generalizing seen with
  | nil => simpa [scriptUnits] using runs_unended free
  | cons byte rest ih =>
    have alone := runs_unended free
    have nothing : ∀ unit ∈ ([] : Text), isLineEnd unit = false :=
      fun _ none => absurd none List.not_mem_nil
    have fresh : runs isLineEnd (rest.map (·.toUInt16)) = runs isLineFeed (scriptUnits rest) :=
      ih nothing paired.tail
    rw [List.map_cons]
    by_cases returns : byte = carriageReturn.toUInt8
    · subst returns
      have ends : isLineEnd carriageReturn.toUInt8.toUInt16 = true := rfl
      obtain ⟨later, rfl⟩ := paired.head
      rw [runs_append_cons isLineEnd seen ends, fresh, alone, scriptUnits_return,
        scriptUnits_byte (by decide), runs_append_cons isLineFeed seen feed,
        runs_skip isLineFeed feed]
    · rw [scriptUnits_byte returns]
      by_cases ending : byte = lineFeed.toUInt8
      · subst ending
        have ends : isLineEnd lineFeed.toUInt8.toUInt16 = true := rfl
        rw [runs_append_cons isLineEnd seen ends, runs_append_cons isLineFeed seen feed, fresh, alone]
      · have grownFree : ∀ unit ∈ seen ++ [byte.toUInt16], isLineEnd unit = false := by
          intro unit member
          rcases List.mem_append.mp member with earlier | last
          · exact free unit earlier
          · rw [List.mem_singleton.mp last, isLineEnd_widened returns ending]
        have grown := ih grownFree paired.tail
        rwa [List.append_assoc, List.append_assoc] at grown

/-- A text that fits the buffers of both runners: units other than zero, at most as many as the
buffer of a file has room for, with lines that end in a line feed or in a carriage return and a
line feed and that fit the line buffer. -/
structure IsScript (bytes : List UInt8) : Prop where
  solid : (0 : UInt8) ∉ bytes
  fits : bytes.length < scriptBufferSize
  paired : PairedReturns bytes
  short : ∀ line ∈ scriptLines bytes, line.length < terminalMaxLine

instance (bytes : List UInt8) : Decidable (IsScript bytes) :=
  decidable_of_iff ((0 : UInt8) ∉ bytes ∧ bytes.length < scriptBufferSize ∧ PairedReturns bytes ∧
      ∀ line ∈ scriptLines bytes, line.length < terminalMaxLine)
    ⟨fun ⟨solid, fits, paired, short⟩ => ⟨solid, fits, paired, short⟩,
      fun script => ⟨script.solid, script.fits, script.paired, script.short⟩⟩

/-- Both runners run the non-empty lines of a script in order: one the script in a file, the
other its units in memory, with a prompt in front of each line. Each is shown to run the same
list of lines, which is read off the script alone. -/
theorem scriptRunners_agree {bytes : List UInt8} (script : IsScript bytes)
    (execute : Memory → Routine σ Bool) {path : Memory} {machine : Machine σ}
    (delivers : Delivers fw path bytes machine) :
    (∃ loaded, OnlyFirmware machine loaded ∧
      (terminalSourceFile fw execute path).run machine = (do
        runEach (pure ()) execute (scriptLines bytes)
        return true : Routine σ Bool).run loaded) ∧
    terminalRunBatchFile fw execute (bytes.map (·.toUInt16) ++ [0]) =
      runEach (echoPrompt fw) execute (scriptLines bytes) := by
  have nothing : ∀ unit ∈ ([] : Text), isLineEnd unit = false :=
    fun _ none => absurd none List.not_mem_nil
  have same : runs isLineEnd (bytes.map (·.toUInt16)) = scriptLines bytes :=
    runs_widened nothing script.paired
  constructor
  · obtain ⟨loaded, frame, _, ran⟩ := run_terminalSourceFile execute delivers
    rw [List.take_of_length_le (Nat.le_sub_one_of_lt script.fits), map_cutLine script.short] at ran
    exact ⟨loaded, frame, ran⟩
  · have solid : (0 : CHAR16) ∉ bytes.map (·.toUInt16) := by
      intro member
      obtain ⟨byte, inside, widened⟩ := List.mem_map.mp member
      have zero : byte = 0 :=
        (UInt8.toUInt8_toUInt16 byte).symm.trans (congrArg UInt16.toUInt8 widened)
      exact script.solid (zero ▸ inside)
    rw [terminalRunBatchFile_eq execute (scan_append _ [] solid) (same ▸ script.short), same]

/-- A volume whose only file is a script. -/
def holding (content : List UInt8) : Machine (Volume Text × Unit) :=
  Volume.started (fun path => if path = text "script" then some content else none) []

/-- The sample volume delivers its script whole. -/
theorem holding_delivers (content : List UInt8) :
    Delivers (Volume.firmware id Volume.quiet) (constant "script") content (holding content) := by
  have readable : scan (constant "script") = some (text "script") := by decide
  exact delivers_volume id Volume.quiet readable rfl rfl rfl

/-- A script with blank lines, both ends of lines and a last line without an end. -/
def mixedScript : List UInt8 := (text "ver\r\n\r\n\nmem\nhelp").map (·.toUInt8)

/-- The firmware of a volume without a device. -/
abbrev quietVolume : Firmware (Volume Text × Unit) := Volume.firmware id Volume.quiet

/-- Both runners take the lines of a script with both kinds of line ends. -/
theorem scriptRunners_agree_mixed :
    IsScript mixedScript ∧
    (∃ loaded, OnlyFirmware (holding mixedScript) loaded ∧
      (terminalSourceFile quietVolume (terminalExecuteCommand quietVolume 2)
        (constant "script")).run (holding mixedScript) = (do
          runEach (pure ()) (terminalExecuteCommand quietVolume 2) (scriptLines mixedScript)
          return true).run loaded) ∧
    terminalRunBatchFile quietVolume (terminalExecuteCommand quietVolume 2)
        (mixedScript.map (·.toUInt16) ++ [0]) =
      runEach (echoPrompt quietVolume) (terminalExecuteCommand quietVolume 2)
        (scriptLines mixedScript) := by
  have script : IsScript mixedScript := by decide +kernel
  exact ⟨script, scriptRunners_agree script (terminalExecuteCommand quietVolume 2)
    (holding_delivers mixedScript)⟩

/-! ## Long files and lines -/

/-- What `terminal_source_file` runs of a file: the lines of the bytes that its buffer has room
for, each cut to what the line buffer has room for. -/
def passedLines (content : List UInt8) : List Text :=
  (scriptLines (content.take (scriptBufferSize - 1))).map cutLine

/-- The lines of a file are handed over in order, each once. What a line or the file has beyond the
buffers is left out, and success is reported. Without such excess, the lines are complete. -/
theorem terminalSourceFile_passes (execute : Memory → Routine σ Bool) {path : Memory}
    {content : List UInt8} {machine : Machine σ} (delivers : Delivers fw path content machine) :
    (∃ loaded, OnlyFirmware machine loaded ∧
      (terminalSourceFile fw execute path).run machine = (do
        runEach (pure ()) execute (passedLines content)
        return true : Routine σ Bool).run loaded) ∧
    (content.length < scriptBufferSize →
      (∀ line ∈ scriptLines content, line.length < terminalMaxLine) →
        passedLines content = scriptLines content) := by
  constructor
  · obtain ⟨loaded, frame, _, ran⟩ := run_terminalSourceFile execute delivers
    exact ⟨loaded, frame, ran⟩
  · intro fits short
    rw [passedLines, List.take_of_length_le (Nat.le_sub_one_of_lt fits), map_cutLine short]

/-- No line of the script is cut, so it is run as it is. -/
theorem terminalSourceFile_passes_mixed :
    (∃ loaded, OnlyFirmware (holding mixedScript) loaded ∧
      (terminalSourceFile quietVolume (terminalExecuteCommand quietVolume 2)
        (constant "script")).run (holding mixedScript) = (do
          runEach (pure ()) (terminalExecuteCommand quietVolume 2) (passedLines mixedScript)
          return true).run loaded) ∧
    passedLines mixedScript = scriptLines mixedScript := by
  obtain ⟨ran, complete⟩ := terminalSourceFile_passes (terminalExecuteCommand quietVolume 2)
    (holding_delivers mixedScript)
  exact ⟨ran, complete (by decide +kernel) (by decide +kernel)⟩

/-- A line that removes a file, four units longer than the line buffer has room for. -/
def longScript : List UInt8 := (text "rm ").map (·.toUInt8) ++ List.replicate 128 0x61

/-- An interpreter that only records what is handed to it. -/
def recorder (command : Memory) : Routine (Volume Text × Unit) Bool := do
  note (.command command [])
  return false

/-- The machine after a script whose commands are only recorded. -/
def recorded (content : List UInt8) : Machine (Volume Text × Unit) :=
  finalState (terminalSourceFile quietVolume recorder (constant "script")) (holding content)

/-- A shortened path is handed over, which is no line of the file, and success is reported. -/
theorem terminalSourceFile_shortens :
    (terminalSourceFile quietVolume recorder (constant "script")).run (holding longScript) =
      .ok (true, recorded longScript) ∧
    .command (text "rm " ++ List.replicate 124 0x61 ++ [0]) [] ∈ (recorded longScript).trace ∧
    text "rm " ++ List.replicate 124 0x61 ∉ scriptLines longScript := by
  exact ⟨run_finalState (by decide +kernel), by decide +kernel, by decide +kernel⟩

end ExistentOS.Terminal
